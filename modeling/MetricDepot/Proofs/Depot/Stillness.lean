import MetricDepot.Proofs.Depot.Prompt
/-!
# Stillness — the writer when nothing reaches it any more

    A run is still when nobody sends anything in it and no time passes.  The disk may fail in
    it at any step, in whatever way, for it may be exchanged between any two of them.

    Three things are paid for in advance, each by its own measure of what the writer is at:
    the steps that it takes (`ahead`), the rounds of its loop (`roundsAhead`), and the
    checkpoints that fail (`failuresAhead`).  A round takes a message or a checkpoint that is
    due, and what a batch or a failed checkpoint sets is paid for by the message or the due
    checkpoint that came before.  A checkpoint that has failed is tried again only later, and
    keeps every other from being set: so there is no second failure in the loop.

    What a step pays, and what goes on beside the writer leaves alone, a still run pays
    (`countP_steps_add_le`).  So the writer stops: `comes_to_rest`.
-/

namespace MetricDepot

namespace Action

/-- Whether an action sends nothing, and lets no time pass. -/
def isStill : Action → Bool
  | .wait _ => false
  | a => a.isSilent

/-- Whether an action lets the writer go on. -/
def isWork : Action → Bool
  | .work => true
  | _ => false

theorem isSilent_of_isStill {a : Action} (h : a.isStill = true) : a.isSilent = true := by
  cases a with
  | wait => cases h
  | _ => exact h

end Action

-- ── Rounds and failures ahead ───────────────────────────────────────────────

/-- At least as many rounds of the loop as the writer still begins with so many messages in the
    queue, and so many checkpoints that are due. -/
def Phase.roundsAhead (queued due : Nat) : Phase → Nat
  | .idle | .saving _ => 2 * queued + 1 + due
  | .batch .. => 2 * queued + 2
  | .draining | .finishing _ | .exited _ | .killed => 0

/-- At least as many failures as are still to come, of which one may come at the end and,
    unless a checkpoint is set for later, one before. -/
def Phase.failuresAhead (later : Bool) : Phase → Nat
  | .idle | .batch .. => if later then 1 else 2
  | .saving _ => 2
  | .draining | .finishing _ => 1
  | .exited _ | .killed => 0

namespace Depot

variable {clock : Clock} {disk disk' : Disk} {d d' : Depot}

/-- Whether the writer is at the beginning of a round. -/
def isWaiting (d : Depot) : Bool :=
  match d.phase with
  | .idle => true
  | _ => false

/-- At least as many rounds as the writer still begins. -/
def roundsAhead (clock : Clock) (d : Depot) : Nat :=
  d.phase.roundsAhead d.queue.length (d.isDue clock).toNat

/-- Whether a checkpoint is set for later. -/
def isLater (d : Depot) (clock : Clock) : Bool := d.deadline.any (clock.millis < ·)

/-- At least as many failures as are counted, or still to come. -/
def failuresAhead (clock : Clock) (d : Depot) : Nat :=
  d.counters.checkpointFailures + d.phase.failuresAhead (d.isLater clock)

theorem roundsAhead_of_phase {phase : Phase} (h : d.phase = phase) :
    d.roundsAhead clock = phase.roundsAhead d.queue.length (d.isDue clock).toNat := by
  rw [roundsAhead, h]

theorem failuresAhead_of_phase {phase : Phase} (h : d.phase = phase) :
    d.failuresAhead clock = d.counters.checkpointFailures + phase.failuresAhead (d.isLater clock) := by
  rw [failuresAhead, h]

theorem isLater_of_retry (h : d.deadline = some (clock.millis + retryDelay)) : d.isLater clock = true := by
  rw [isLater, h, Option.any_some, retryDelay]
  exact decide_eq_true (by omega)

/-- What is due is not set for later. -/
theorem isLater_of_due (h : d.isDue clock = true) : d.isLater clock = false := by
  rw [isDue] at h
  rw [isLater]
  cases hdeadline : d.deadline with
  | none => rfl
  | some due =>
    rw [hdeadline, Option.any_some] at h
    exact decide_eq_false (Nat.not_lt.mpr (of_decide_eq_true h))

theorem failuresAhead_le (d : Depot) (clock : Clock) :
    d.failuresAhead clock ≤ d.counters.checkpointFailures + 2 := by
  refine Nat.add_le_add_left ?_ _
  cases d.phase with
  | idle | batch =>
    dsimp only [Phase.failuresAhead]
    split <;> omega
  | _ =>
    dsimp only [Phase.failuresAhead]
    omega

theorem roundsAhead_le (d : Depot) (clock : Clock) : d.roundsAhead clock ≤ 2 * d.queue.length + 2 := by
  have hdue := Bool.toNat_le (d.isDue clock)
  rw [roundsAhead]
  cases d.phase <;> dsimp only [Phase.roundsAhead] <;> omega

/-- A writer that takes a message pays with it for the end of its batch, and for the checkpoint
    that this may make due. -/
theorem roundsAhead_of_takes {handled : Nat} {changed : Bool} (h : Takes clock d handled changed) :
    d.roundsAhead clock = 2 * d.queue.length + 1 + (!d.isWaiting).toNat := by
  rcases h with ⟨hphase, hdue, -⟩ | ⟨hphase, -⟩
  · rw [roundsAhead_of_phase hphase, hdue, isWaiting, hphase]
    rfl
  · rw [roundsAhead_of_phase hphase, isWaiting, hphase]
    rfl

theorem failuresAhead_of_takes {handled : Nat} {changed : Bool} (h : Takes clock d handled changed) :
    d.failuresAhead clock = d.counters.checkpointFailures + if d.isLater clock then 1 else 2 := by
  rcases h with ⟨hphase, -⟩ | ⟨hphase, -⟩
  · exact failuresAhead_of_phase hphase
  · exact failuresAhead_of_phase hphase

theorem roundsAhead_of_closed (h : d.isClosed = true) : d.roundsAhead clock = 0 := by
  rw [isClosed] at h
  rw [roundsAhead]
  cases hphase : d.phase with
  | idle | batch | saving =>
    rw [hphase] at h
    cases h
  | _ => rfl

/-- **Every round is paid for.** -/
theorem Turn.roundsAhead_le (h : Turn clock disk d d' disk') :
    d'.roundsAhead clock + d.isWaiting.toNat ≤ d.roundsAhead clock := by
  have hstays := h.closed
  cases h with
  | skipSave hphase hdue =>
    have hafter : ({ d with deadline := none } : Depot).phase = .idle := hphase
    rw [roundsAhead_of_phase hphase, hdue, roundsAhead_of_phase hafter, isWaiting, hphase]
    exact Nat.le_refl _
  | beginSave _ _ hphase hdue =>
    rw [roundsAhead_of_phase hphase, hdue, roundsAhead_of_phase rfl, isWaiting, hphase]
    exact Nat.le_refl _
  | refuseSave _ _ hphase hdue =>
    rw [roundsAhead_of_phase hphase, hdue, roundsAhead_of_phase rfl, isDue_of_retry rfl, isWaiting, hphase]
    exact Nat.le_refl _
  | takeWrite _ _ _ _ htakes hqueue | takeFlush _ _ _ _ htakes hqueue
  | takeShutdown _ _ _ htakes hqueue =>
    rw [roundsAhead_of_takes htakes, hqueue, List.length_cons, roundsAhead_of_phase rfl]
    dsimp only [Phase.roundsAhead]
    cases d.isWaiting with
    | true =>
      dsimp only [Bool.not_true, Bool.toNat_true, Bool.toNat_false]
      omega
    | false =>
      dsimp only [Bool.not_false, Bool.toNat_true, Bool.toNat_false]
      omega
  | close hphase =>
    rw [roundsAhead_of_closed rfl, roundsAhead_of_phase hphase, isWaiting, hphase]
    dsimp only [Phase.roundsAhead, Bool.toNat_true]
    omega
  | endQuietly _ _ hphase | endArmed _ _ hphase =>
    -- the next checkpoint may be due at once
    rw [roundsAhead_of_phase hphase, isWaiting, hphase]
    exact (Nat.add_zero _).trans_le (Depot.roundsAhead_le _ clock)
  | die _ _ hphase =>
    rw [roundsAhead_of_closed rfl, isWaiting, hphase]
    exact Nat.zero_le _
  | saved hphase | saveEffect _ _ _ hphase =>
    rw [roundsAhead_of_phase hphase, roundsAhead_of_phase rfl, isWaiting, hphase]
    exact Nat.le_refl _
  | saveFault _ _ _ _ hphase =>
    rw [roundsAhead_of_phase hphase, roundsAhead_of_phase rfl, isDue_of_retry rfl, isWaiting, hphase]
    exact Nat.le_add_right _ _
  | drainWrite _ _ hphase | drainFlush _ _ hphase | drainShutdown _ hphase | exitInMemory hphase
  | beginFinish _ _ hphase | refuseFinish _ _ hphase | finished hphase | finishEffect _ _ _ hphase
  | finishFault _ _ _ _ hphase =>
    have hclosed : d.isClosed = true := by rw [isClosed, hphase]
    rw [roundsAhead_of_closed (hstays hclosed), isWaiting, hphase]
    exact Nat.zero_le _

theorem lt_failuresAhead_of_open (h : d.isClosed = false) :
    d.counters.checkpointFailures < d.failuresAhead clock := by
  rw [isClosed] at h
  refine Nat.lt_add_of_pos_right ?_
  cases hphase : d.phase with
  | idle | batch =>
    dsimp only [Phase.failuresAhead]
    split
    · exact Nat.one_pos
    · exact Nat.two_pos
  | saving => exact Nat.two_pos
  | _ =>
    rw [hphase] at h
    cases h

/-- **Every failure is paid for.** -/
theorem Turn.failuresAhead_le (h : Turn clock disk d d' disk') :
    d'.failuresAhead clock ≤ d.failuresAhead clock := by
  cases h with
  | skipSave hphase hdue | beginSave _ _ hphase hdue =>
    rw [failuresAhead_of_phase hphase, isLater_of_due hdue]
    exact Depot.failuresAhead_le _ clock
  | refuseSave _ _ hphase hdue =>
    rw [failuresAhead_of_phase hphase, isLater_of_due hdue, failuresAhead_of_phase rfl, isLater_of_retry rfl]
    exact Nat.le_refl _
  | takeWrite _ _ _ _ htakes | takeFlush _ _ _ _ htakes =>
    rw [failuresAhead_of_takes htakes]
    exact Nat.le_refl _
  | takeShutdown _ _ _ htakes => exact lt_failuresAhead_of_open (isClosed_of_takes htakes)
  | close hphase => exact lt_failuresAhead_of_open (by rw [isClosed, hphase])
  | endQuietly _ _ hphase =>
    rw [failuresAhead_of_phase hphase]
    exact Nat.le_refl _
  | endArmed _ _ hphase _ _ hdeadline =>
    rw [failuresAhead_of_phase hphase, isLater, hdeadline]
    exact Depot.failuresAhead_le _ clock
  | die => exact Nat.add_le_add_left (Nat.zero_le _) _
  | saved hphase | saveEffect _ _ _ hphase =>
    rw [failuresAhead_of_phase hphase]
    exact Depot.failuresAhead_le _ clock
  | saveFault _ _ _ _ hphase =>
    rw [failuresAhead_of_phase hphase, failuresAhead_of_phase rfl, isLater_of_retry rfl]
    exact Nat.le_refl _
  | drainWrite _ rest hphase | drainFlush _ rest hphase | drainShutdown rest hphase =>
    rw [failuresAhead_of_phase hphase, failuresAhead]
    show _ + Phase.failuresAhead _ d.phase ≤ _
    rw [hphase]
    exact Nat.le_refl _
  | exitInMemory hphase | beginFinish _ _ hphase | refuseFinish _ _ hphase | finished hphase
  | finishEffect _ _ _ hphase | finishFault _ _ _ _ hphase =>
    rw [failuresAhead_of_phase hphase, failuresAhead_of_phase rfl]
    dsimp only [Phase.failuresAhead, Counters.checkpointFailed, Counters.checkpointWritten]
    omega

end Depot

namespace Site

open Depot

-- ── Steps and rounds of a run ───────────────────────────────────────────────

/-- The depot at which an action lets the writer take a step, if it takes one. -/
def stepped? (s : Site) : Action → Option Depot
  | .work => (s.depot.step s.clock s.disk).map fun _ => s.depot
  | _ => none

/-- The depots at which the writer takes its steps in a run. -/
def steps : Site → List Action → List Depot
  | _, [] => []
  | s, a :: rest => (s.stepped? a).toList ++ steps (s.perform a) rest

/-- How many rounds of its loop the writer begins in a run. -/
def rounds (s : Site) (run : List Action) : Nat := (s.steps run).countP isWaiting

/-- At some moment of a run the queue is closed, and all that was in it is handled. -/
def Drains (s : Site) (run : List Action) : Prop :=
  ∃ before, before <+: run ∧ (s.after before).depot.phase = .draining ∧ (s.after before).depot.queue = []

/-- What an action comes to when nothing is sent and no time passes: the writer takes a step,
    or nothing changes that it looks at, but for the disk and the handles. -/
inductive Stands (s : Site) (a : Action) : Site → Prop where
  | step (depot : Depot) (disk : Disk) (ha : a = .work)
      (hstep : s.depot.step s.clock s.disk = some (depot, disk)) :
      Stands s a { s with depot, disk }
  | aside (s' : Site) (hstepped : s.stepped? a = none) (hclock : s'.clock = s.clock)
      (hsent : Sent [] s.depot s'.depot) (hhandles : a ≠ .drop → s.depot.handles ≤ s'.depot.handles) :
      Stands s a s'

variable {s : Site} {a : Action} {run : List Action}

theorem clock_hold (s : Site) (change : Depot → Depot) : (s.hold change).clock = s.clock := by
  rw [hold]
  split
  · rfl
  · rfl

theorem handles_le_hold (s : Site) (change : Depot → Depot)
    (hchange : s.depot.handles ≤ (change s.depot).handles) :
    s.depot.handles ≤ (s.hold change).depot.handles := by
  rw [hold]
  split
  · exact Nat.le_refl _
  · exact hchange

theorem handles_endedShutdown (d : Depot) : (endedShutdown d).handles = d.handles := by
  unfold endedShutdown
  split
  next _ _ hend =>
    obtain ⟨result, -, hresult⟩ := Option.map_eq_some_iff.mp hend
    obtain ⟨rfl, -⟩ := Prod.mk.inj hresult
    rfl
  · rfl

/-- **What can happen in a still run.** -/
theorem stands (s : Site) (hstill : a.isStill = true) : Stands s a (s.perform a) := by
  have hsent := sent_of_silent s (Action.isSilent_of_isStill hstill)
  cases a with
  | submit | flush | beginShutdown | wait => cases hstill
  | look | outside => exact .aside _ rfl rfl (hsent (fun h => nomatch h)) fun _ => Nat.le_refl _
  | endShutdown =>
    have hhandles := handles_le_hold s endedShutdown (Nat.le_of_eq (handles_endedShutdown s.depot).symm)
    exact .aside _ rfl (clock_hold _ _) (hsent (fun h => nomatch h)) fun _ => hhandles
  | clone =>
    have hhandles := handles_le_hold s addHandle (Nat.le_succ _)
    exact .aside _ rfl (clock_hold _ _) (hsent (fun h => nomatch h)) fun _ => hhandles
  | drop => exact .aside _ rfl (clock_hold _ _) (hsent (fun h => nomatch h)) fun h => absurd rfl h
  | work =>
    cases hstep : s.depot.step s.clock s.disk with
    | none =>
      have hsame : s.perform .work = s := by simp only [perform, hstep]
      rw [hsame]
      refine .aside s ?_ rfl (.none _) fun _ => Nat.le_refl _
      rw [stepped?, hstep]
      rfl
    | some next =>
      obtain ⟨depot, disk⟩ := next
      have hnext : s.perform .work = { s with depot, disk } := by simp only [perform, hstep]
      rw [hnext]
      exact .step depot disk rfl hstep

-- ── Along a still run ───────────────────────────────────────────────────────

/-- Who sends nothing changes none of the measures. -/
theorem ahead_of_sent {clock : Clock} {d d' : Depot} (h : Sent [] d d') :
    d'.ahead clock = d.ahead clock := by
  have hqueue : d'.queue = d.queue := h.queue.trans (List.append_nil _)
  rw [ahead, ahead, dueAhead, dueAhead, isDue, isDue, h.phase, h.deadline, hqueue]

theorem roundsAhead_of_sent {clock : Clock} {d d' : Depot} (h : Sent [] d d') :
    d'.roundsAhead clock = d.roundsAhead clock := by
  have hqueue : d'.queue = d.queue := h.queue.trans (List.append_nil _)
  rw [roundsAhead, roundsAhead, isDue, isDue, h.phase, h.deadline, hqueue]

theorem failuresAhead_of_sent {clock : Clock} {d d' : Depot} (h : Sent [] d d') :
    d'.failuresAhead clock = d.failuresAhead clock := by
  rw [failuresAhead, failuresAhead, isLater, isLater, h.phase, h.deadline, h.counters]

/-- **A still run pays for its steps.** Of a measure that every step of the writer lowers by
    one, if it is of a kind, and that nothing else changes, a still run uses up as much as it
    has steps of this kind. -/
theorem countP_steps_add_le (s : Site) (kind : Depot → Bool) (measure : Clock → Depot → Nat)
    (turn : ∀ {clock : Clock} {disk disk' : Disk} {d d' : Depot}, Turn clock disk d d' disk' →
      measure clock d' + (kind d).toNat ≤ measure clock d)
    (sent : ∀ {clock : Clock} {d d' : Depot}, Sent [] d d' → measure clock d' = measure clock d)
    (hstill : ∀ a ∈ run, a.isStill = true) :
    (s.steps run).countP kind + measure s.clock (s.after run).depot ≤ measure s.clock s.depot := by
  induction run generalizing s with
  | nil => exact Nat.le_of_eq (Nat.zero_add _)
  | cons a run ih =>
    have hstands := stands s (hstill a List.mem_cons_self)
    have ih := @ih (s.perform a) fun b hb => hstill b (List.mem_cons_of_mem a hb)
    show (((s.stepped? a).toList ++ (s.perform a).steps run).countP kind)
      + measure s.clock ((s.perform a).after run).depot ≤ _
    rw [List.countP_append]
    generalize s.perform a = s' at hstands ih ⊢
    cases hstands with
    | step depot disk ha hstep =>
      have hpaid := turn (turn_of_step hstep)
      have hstepped : s.stepped? a = some s.depot := by
        rw [ha, stepped?, hstep]
        rfl
      have hone : [s.depot].countP kind = (kind s.depot).toNat := by
        rw [List.countP_singleton]
        cases kind s.depot <;> rfl
      rw [hstepped, Option.toList_some, hone]
      dsimp only at ih ⊢
      omega
    | aside _ hstepped hclock hsent =>
      rw [hstepped, Option.toList_none, List.countP_nil, Nat.zero_add, ← sent hsent, ← hclock]
      exact ih

theorem clock_after_still (hstill : ∀ a ∈ run, a.isStill = true) : (s.after run).clock = s.clock := by
  induction run generalizing s with
  | nil => rfl
  | cons a run ih =>
    have hstands := stands s (hstill a List.mem_cons_self)
    refine (ih fun b hb => hstill b (List.mem_cons_of_mem a hb)).trans ?_
    generalize s.perform a = s' at hstands
    cases hstands with
    | step => rfl
    | aside _ _ hclock => exact hclock

/-- A writer that waits goes on waiting, as long as nobody sends anything or gives up a handle. -/
theorem rests_of_sent {clock : Clock} {d d' : Depot} {disk disk' : Disk}
    (hrests : d.step clock disk = none) (hsent : Sent [] d d') (hhandles : d.handles ≤ d'.handles) :
    d'.step clock disk' = none := by
  have hqueue : d'.queue = d.queue := hsent.queue.trans (List.append_nil _)
  refine step_eq_none_iff.mpr ?_
  rcases step_eq_none_iff.mp hrests with ⟨hphase, hempty, hheld, hdue⟩ | hover
  · refine Or.inl ⟨hsent.phase.trans hphase, hqueue.trans hempty, ?_, ?_⟩
    · exact Nat.ne_of_gt (Nat.lt_of_lt_of_le (Nat.pos_of_ne_zero hheld) hhandles)
    · rw [isDue, hsent.deadline]
      exact hdue
  · rw [isOver] at hover ⊢
    rw [hsent.phase]
    exact Or.inr hover

/-- A writer that does not wait has used every chance to go on. -/
theorem rests_or_paid (hstill : ∀ a ∈ run, a.isStill = true) (hkept : .drop ∉ run) :
    (s.after run).depot.step (s.after run).clock (s.after run).disk = none ∨
      run.countP Action.isWork + (s.after run).depot.ahead s.clock ≤ s.depot.ahead s.clock := by
  induction run using List.reverseRecOn with
  | nil => exact Or.inr (Nat.le_of_eq (Nat.zero_add _))
  | append_singleton run a ih =>
    have hbefore : ∀ b ∈ run, b.isStill = true := fun b hb => hstill b (List.mem_append_left _ hb)
    have ih := ih hbefore fun hmem => hkept (List.mem_append_left _ hmem)
    have hclock : (s.after run).clock = s.clock := clock_after_still hbefore
    have hdrop : a ≠ .drop := by
      rintro rfl
      exact hkept (List.mem_append_right _ (List.mem_singleton_self _))
    rw [after_append, List.countP_append, List.countP_singleton]
    generalize s.after run = before at ih hclock ⊢
    show (before.perform a).depot.step (before.perform a).clock (before.perform a).disk = none ∨
      _ + (before.perform a).depot.ahead s.clock ≤ _
    have hstands := stands before (hstill a (List.mem_append_right _ (List.mem_singleton_self _)))
    generalize before.perform a = now at hstands ⊢
    cases hstands with
    | step depot disk ha hstep =>
      have hlt := (turn_of_step hstep).ahead_lt
      rw [hclock] at hlt
      rcases ih with hrests | hpaid
      · cases hrests.symm.trans hstep
      · right
        rw [ha, Action.isWork, if_pos rfl]
        dsimp only
        omega
    | aside _ hstepped hsame hsent hhandles =>
      rw [hsame]
      rcases ih with hrests | hpaid
      · exact Or.inl (rests_of_sent hrests hsent (hhandles hdrop))
      · cases a with
        | work =>
          have hrests : before.depot.step before.clock before.disk = none :=
            Option.map_eq_none_iff.mp hstepped
          exact Or.inl (rests_of_sent hrests hsent (hhandles hdrop))
        | _ =>
          right
          rw [ahead_of_sent hsent]
          exact hpaid

/-- The steps of a still run, and those that are ahead of the writer behind it, were ahead of it
    before. -/
theorem length_steps_add_le (hstill : ∀ a ∈ run, a.isStill = true) :
    (s.steps run).length + (s.after run).depot.ahead s.clock ≤ s.depot.ahead s.clock := by
  have hpaid := countP_steps_add_le s (fun _ => true) (fun clock d => d.ahead clock)
    (fun hturn => hturn.ahead_lt) ahead_of_sent hstill
  rw [List.countP_true] at hpaid
  exact hpaid

/-- Each message that is queued is good for two rounds at most. -/
theorem rounds_le (hstill : ∀ a ∈ run, a.isStill = true) :
    s.rounds run ≤ 2 * s.depot.queue.length + 2 := by
  have hpaid := countP_steps_add_le s isWaiting roundsAhead Turn.roundsAhead_le
    roundsAhead_of_sent hstill
  have hahead := roundsAhead_le s.depot s.clock
  rw [rounds]
  omega

/-- While no time passes, a checkpoint that has failed is not tried again, but for the last. -/
theorem failures_le_of_still (hstill : ∀ a ∈ run, a.isStill = true) :
    (s.after run).depot.counters.checkpointFailures ≤ s.depot.counters.checkpointFailures + 2 := by
  have hpaid := countP_steps_add_le s (fun _ => false) failuresAhead Turn.failuresAhead_le
    failuresAhead_of_sent hstill
  calc (s.after run).depot.counters.checkpointFailures
      ≤ (s.after run).depot.failuresAhead s.clock := Nat.le_add_right _ _
    _ ≤ s.depot.failuresAhead s.clock := Nat.le_trans (Nat.le_add_left _ _) hpaid
    _ ≤ s.depot.counters.checkpointFailures + 2 := failuresAhead_le _ _

/-- A writer that could have taken all the steps that were ahead of it, since a handle was last
    given up, waits. -/
theorem rests_of_works {early late : List Action} (hstill : ∀ a ∈ early ++ late, a.isStill = true)
    (hkept : .drop ∉ late) (hworks : s.depot.ahead s.clock ≤ late.countP Action.isWork) :
    (s.after (early ++ late)).depot.step (s.after (early ++ late)).clock (s.after (early ++ late)).disk
      = none := by
  have hbefore : ∀ a ∈ early, a.isStill = true := fun a ha => hstill a (List.mem_append_left _ ha)
  have hbehind : ∀ a ∈ late, a.isStill = true := fun a ha => hstill a (List.mem_append_right _ ha)
  have hearly := length_steps_add_le (s := s) hbefore
  have hlate := rests_or_paid (s := s.after early) hbehind hkept
  have hclock := clock_after_still (s := s) hstill
  rw [clock_after_still hbefore, ← after_append] at hlate
  generalize s.after (early ++ late) = now at hlate hclock ⊢
  rcases hlate with hrests | hpaid
  · exact hrests
  · -- all is paid, so there is nothing left to pay a step with
    cases hstep : now.depot.step now.clock now.disk with
    | none => rfl
    | some next =>
      have hlt := (turn_of_step hstep).ahead_lt
      rw [hclock] at hlt
      omega

/-- A run that ends behind the drain has come past its end. -/
theorem drains_of_drained (hbefore : s.depot.isDrained = false)
    (hafter : (s.after run).depot.isDrained = true) : s.Drains run := by
  induction run using List.reverseRecOn with
  | nil => cases hbefore.symm.trans hafter
  | append_singleton run a ih =>
    cases hdrained : (s.after run).depot.isDrained with
    | true =>
      obtain ⟨before, hprefix, hmoment⟩ := ih hdrained
      exact ⟨before, hprefix.trans (List.prefix_append run [a]), hmoment⟩
    | false =>
      refine ⟨run, List.prefix_append run [a], ?_⟩
      rw [after_append] at hafter
      generalize s.after run = last at hafter hdrained ⊢
      have hafter : (last.perform a).depot.isDrained = true := hafter
      have hhappens := happens last a
      generalize last.perform a = now at hafter hhappens
      cases hhappens with
      | turn depot disk _ hturn => exact hturn.of_drained hdrained hafter
      | send messages depot _ hsent =>
        rw [isDrained, hsent.phase] at hafter
        cases hdrained.symm.trans hafter
      | rest | pass | outside => cases hdrained.symm.trans hafter

/-- **The writer always comes to rest.** Let a writer that is alive be at anything, with whatever
    in its queue, and let the clock tell the time of its next checkpoint.  If nobody sends
    anything more and no time passes, then, however the disk fails and whatever it is
    exchanged for at any moment: the writer begins at most two rounds for each message that
    was queued, and two more; it takes no more steps than were ahead of it; and at most two
    checkpoints fail, one before the end and one at it.  Where it takes no step any more,
    either it has come to its end, past a moment at which the queue was closed and empty, or
    it waits, the queue is empty, and a checkpoint that is set is due strictly later.  And it
    takes no step any more as soon as it could have taken all that were ahead of it since a
    handle was last given up. -/
theorem comes_to_rest (hlive : s.depot.phase ≠ .killed)
    (hclock : ∀ target, s.depot.target = some target → s.clock.millis + target.interval < Clock.limit)
    (hstill : ∀ a ∈ run, a.isStill = true) :
    let now := s.after run
    (s.rounds run ≤ 2 * s.depot.queue.length + 2 ∧ (s.steps run).length ≤ s.depot.ahead s.clock ∧
        now.depot.counters.checkpointFailures ≤ s.depot.counters.checkpointFailures + 2) ∧
      (now.depot.step now.clock now.disk = none →
        (∃ result, now.depot.phase = .exited result ∧ (s.depot.isDrained = true ∨ s.Drains run)) ∨
          (now.depot.phase = .idle ∧ now.depot.queue = [] ∧
            ∀ due, now.depot.deadline = some due → s.clock.millis < due)) ∧
      (∀ early late, run = early ++ late → .drop ∉ late →
        s.depot.ahead s.clock ≤ late.countP Action.isWork → now.depot.step now.clock now.disk = none) := by
  intro now
  have hnow : now.clock = s.clock := clock_after_still hstill
  have hsteps : (s.steps run).length ≤ s.depot.ahead s.clock :=
    Nat.le_trans (Nat.le_add_right _ _) (length_steps_add_le hstill)
  refine ⟨⟨rounds_le hstill, hsteps, failures_le_of_still hstill⟩, ?_, ?_⟩
  · intro hrests
    rcases step_eq_none_iff.mp hrests with ⟨hphase, hqueue, -, hdue⟩ | hover
    · refine Or.inr ⟨hphase, hqueue, ?_⟩
      intro due hset
      rw [isDue, hset, Option.any_some, hnow] at hdue
      exact Nat.lt_of_not_le (of_decide_eq_false hdue)
    · have halive : now.depot.phase ≠ .killed := by
        intro hkilled
        obtain ⟨target, htarget, hlimit⟩ := limit_le_of_killed s hlive run hkilled
        exact absurd (hclock target htarget) (Nat.not_lt.mpr (hnow ▸ hlimit))
      obtain ⟨result, hphase⟩ := exited_of_over hover halive
      refine Or.inl ⟨result, hphase, ?_⟩
      cases hbefore : s.depot.isDrained with
      | true => exact Or.inl rfl
      | false => exact Or.inr (drains_of_drained hbefore (isDrained_of_over hover halive))
  · rintro early late rfl hkept hworks
    exact rests_of_works hstill hkept hworks

/-- A disk of which the next effect fails. -/
def broken : Disk := ⟨.empty, [some 0]⟩

/-- A depot without an interval, seven milliseconds after the clock began, with a push and a
    flush that nobody has seen to. -/
def neglected : Site :=
  (opened .empty (some ⟨"depot.ckpt", 0⟩) ⟨7, 0⟩ broken).after [.submit upPush, .flush]

/-- So many steps, before each of which the disk breaks again. -/
def luckless (n : Nat) : List Action := (List.replicate n [.outside broken, .work]).flatten

/-- The push is applied, and a checkpoint is due at once.  It fails, and it is not tried again
    at the same time. -/
theorem comes_to_rest_luckless :
    neglected.rounds (luckless 28) = 2 ∧
      (neglected.after (luckless 28)).depot.counters.checkpointFailures = 1 ∧
      (neglected.after (luckless 28)).depot.step (neglected.after (luckless 28)).clock
        (neglected.after (luckless 28)).disk = none ∧
      (neglected.after (luckless 28)).depot.phase = .idle ∧
      (neglected.after (luckless 28)).depot.queue = [] ∧
      (neglected.after (luckless 28)).depot.deadline = some 5007 ∧ neglected.clock.millis < 5007 := by
  have hstill : ∀ a ∈ luckless 28, a.isStill = true := by
    intro a ha
    obtain ⟨pair, hpair, ha⟩ := List.mem_flatten.mp ha
    rw [List.eq_of_mem_replicate hpair] at ha
    rcases List.mem_pair.mp ha with rfl | rfl <;> rfl
  have hclock : ∀ target, neglected.depot.target = some target →
      neglected.clock.millis + target.interval < Clock.limit := by
    rintro _ ⟨rfl⟩
    decide
  have hkept : .drop ∉ luckless 28 := by simp [luckless]
  have hworks : neglected.depot.ahead neglected.clock ≤ (luckless 28).countP Action.isWork := by
    decide +kernel
  have hphase : (neglected.after (luckless 28)).depot.phase = .idle := by decide +kernel
  have hdeadline : (neglected.after (luckless 28)).depot.deadline = some 5007 := by decide +kernel
  obtain ⟨-, hresting, hrests⟩ := comes_to_rest (by decide +kernel) hclock hstill
  have hrests := hrests [] (luckless 28) rfl hkept hworks
  rcases hresting hrests with ⟨result, hexited, -⟩ | ⟨-, hqueue, hlater⟩
  · rw [hphase] at hexited
    cases hexited
  · exact ⟨by decide +kernel, by decide +kernel, hrests, hphase, hqueue, hdeadline, hlater 5007 hdeadline⟩

end Site

end MetricDepot
