import MetricDepot.Proofs.Depot.Batches
import MetricDepot.Proofs.Depot.Lifecycle
import MetricDepot.Proofs.Depot.Outlook
import MetricDepot.Proofs.Depot.Schedule
/-!
# Prompt checkpoints — one for each batch that changes something

    A writer without an interval is prompt: a checkpoint that is set is due, so it comes before
    the next message, and while one is under way or a batch is collected none is set.  As long
    as nothing fails and nobody closes the queue, it stays so, and there is little that its
    steps can be (`PromptTurn`).  Each of them is the first deed of the outlook before it, and
    what remains is the outlook behind it: `Prompt.outlook_eq`.

    So a run that leaves nothing to do has done what was prescribed in the beginning:
    `checkpoint_per_changing_batch`.
-/

namespace MetricDepot

open Checkpoint

namespace Depot

variable {clock : Clock} {disk disk' : Disk} {d d' : Depot} {handled : Nat} {changed : Bool}

-- ── What is done ────────────────────────────────────────────────────────────

/-- The deed of a step of the writer. -/
def deed? (clock : Clock) (disk disk' : Disk) (d d' : Depot) : Option Deed :=
  if d.begins clock then some .begins
  else if d.isTaking clock then d.queue.head?.map .takes
  else if d.replaces disk then d.target.map fun target => .replaces (disk'.files.read target.file)
  else if d.counters.checkpointsWritten < d'.counters.checkpointsWritten then some .counts
  else none

theorem deed?_of_takes {m : Message} {rest : List Message} (htakes : Takes clock d handled changed)
    (hqueue : d.queue = m :: rest) : deed? clock disk disk' d d' = some (.takes m) := by
  rw [deed?, begins_of_takes htakes, isTaking_of_takes htakes, hqueue]
  rfl

/-- The end of a batch is no deed, and neither is waiting. -/
theorem deed?_of_pause (hbegins : d.begins clock = false) (hpending : d.pending? = none)
    (hnothing : d.queue = [] ∨ d.isTaking clock = false)
    (hcounters : d'.counters.checkpointsWritten = d.counters.checkpointsWritten) :
    deed? clock disk disk' d d' = none := by
  have hreplaces : d.replaces disk = false := replaces_of_pending (Or.inl hpending)
  rw [deed?, hbegins, hreplaces, hcounters]
  simp only [Bool.false_eq_true, if_false, Nat.lt_irrefl]
  rcases hnothing with hqueue | htaking
  · simp [hqueue]
  · simp [htaking]

theorem Turn.failures_le (h : Turn clock disk d d' disk') :
    d.counters.checkpointFailures ≤ d'.counters.checkpointFailures := by
  cases h with
  | refuseSave | saveFault | refuseFinish | finishFault => exact Nat.le_succ _
  | _ => exact Nat.le_refl _

/-- As long as there is a handle, nobody says the word to stop, and the clock can tell the time
    of the next checkpoint, no step closes the queue. -/
theorem Turn.stays_open (h : Turn clock disk d d' disk') (hopen : d.isClosed = false)
    (hhandles : d.handles ≠ 0) (hword : .shutdown ∉ d.queue)
    (hclock : ∀ target, d.target = some target → clock.millis + target.interval < Clock.limit) :
    d'.isClosed = false ∧ .shutdown ∉ d'.queue := by
  cases h with
  | takeWrite _ _ _ rest _ hqueue | takeFlush _ _ _ rest _ hqueue =>
    refine ⟨rfl, fun hmem => hword ?_⟩
    rw [hqueue]
    exact List.mem_cons_of_mem _ hmem
  | takeShutdown _ _ rest _ hqueue =>
    refine absurd ?_ hword
    rw [hqueue]
    exact List.mem_cons_self
  | close _ _ _ hnone => exact absurd hnone hhandles
  | die _ target _ _ htarget _ hlimit => exact absurd (hclock target htarget) (Nat.not_lt.mpr hlimit)
  | skipSave => exact ⟨hopen, hword⟩
  | beginSave | refuseSave | endQuietly | endArmed | saved | saveEffect | saveFault => exact ⟨rfl, hword⟩
  | drainWrite _ _ hphase | drainFlush _ _ hphase | drainShutdown _ hphase | exitInMemory hphase
  | beginFinish _ _ hphase | refuseFinish _ _ hphase | finished hphase | finishEffect _ _ _ hphase
  | finishFault _ _ _ _ hphase =>
    rw [isClosed, hphase] at hopen
    cases hopen

end Depot

namespace Action

/-- Whether an action lets messages alone. -/
def isSilent : Action → Bool
  | .submit _ => false
  | .flush => false
  | .beginShutdown => false
  | _ => true

end Action

namespace Site

open Depot

/-- The deed of an action. -/
def deed? (s : Site) : Action → Option Deed
  | .work => Depot.deed? s.clock s.disk (s.perform .work).disk s.depot (s.perform .work).depot
  | _ => none

/-- The deeds of the writer in a run. -/
def deeds : Site → List Action → List Deed
  | _, [] => []
  | s, a :: rest => (s.deed? a).toList ++ deeds (s.perform a) rest

-- ── What every action keeps ─────────────────────────────────────────────────

/-- A writer without an interval that has not been told to stop: a checkpoint that is set is
    due, and one under way is that of the catalog. -/
structure Prompt (file : String) (s : Site) : Prop where
  target : s.depot.target = some ⟨file, 0⟩
  word : .shutdown ∉ s.depot.queue
  timely : ∀ due, s.depot.deadline = some due → s.depot.phase = .idle ∧ due ≤ s.clock.millis
  staged : ∀ pending, s.depot.phase = .saving pending →
    ∃ bytes, encode s.depot.catalog = .ok bytes ∧ Staged file bytes s.disk.files pending ∧
      pending <:+ replacement file bytes

variable {file : String} {s : Site} {a : Action} {d' : Depot} {disk' : Disk}

/-- Where no checkpoint is set, none is set for later. -/
theorem Prompt.of_unset (htarget : s.depot.target = some ⟨file, 0⟩) (hword : .shutdown ∉ s.depot.queue)
    (hdeadline : s.depot.deadline = none)
    (hstaged : ∀ pending, s.depot.phase = .saving pending →
      ∃ bytes, encode s.depot.catalog = .ok bytes ∧ Staged file bytes s.disk.files pending ∧
        pending <:+ replacement file bytes) : Prompt file s := by
  refine ⟨htarget, hword, ?_, hstaged⟩
  intro due hset
  cases hdeadline.symm.trans hset

theorem Prompt.deadline_eq_none (h : Prompt file s) (hphase : s.depot.phase ≠ .idle) :
    s.depot.deadline = none := by
  refine Option.eq_none_iff_forall_ne_some.mpr ?_
  intro due hdue
  exact hphase (h.timely due hdue).1

/-- No checkpoint is set for later. -/
theorem Prompt.deadline_of_not_due (h : Prompt file s) (hdue : s.depot.isDue s.clock = false) :
    s.depot.deadline = none := by
  refine Option.eq_none_iff_forall_ne_some.mpr ?_
  intro due hset
  rw [isDue, hset, Option.any_some] at hdue
  exact of_decide_eq_false hdue (h.timely due hset).2

theorem Prompt.deadline_of_takes (h : Prompt file s) {handled : Nat} {changed : Bool}
    (htakes : Takes s.clock s.depot handled changed) : s.depot.deadline = none := by
  rcases htakes with ⟨-, hdue, -⟩ | ⟨hphase, -⟩
  · exact h.deadline_of_not_due hdue
  · exact h.deadline_eq_none (by simp [hphase])

/-- What a step of a prompt writer can be. -/
inductive PromptTurn (file : String) (s : Site) : Depot → Disk → Prop where
  | begin (bytes : Bytes) (hphase : s.depot.phase = .idle) (hdue : s.depot.isDue s.clock = true)
      (hbytes : encode s.depot.catalog = .ok bytes) :
      PromptTurn file s
        { s.depot with
          deadline := none
          phase := .saving (replacement file bytes) } s.disk
  | take (handled : Nat) (changed : Bool) (m : Message) (rest : List Message)
      (htakes : Takes s.clock s.depot handled changed) (hqueue : s.depot.queue = m :: rest) :
      PromptTurn file s ({ s.depot with queue := rest }.handle handled changed m) s.disk
  | pause (handled : Nat) (changed : Bool) (hphase : s.depot.phase = .batch handled changed)
      (hfull : s.depot.queue = [] ∨ batchLimit ≤ handled) :
      PromptTurn file s
        { s.depot with
          phase := .idle
          deadline := if changed then some s.clock.millis else none } s.disk
  | saved (hphase : s.depot.phase = .saving []) :
      PromptTurn file s
        { s.depot with
          phase := .idle
          counters := s.depot.counters.checkpointWritten s.clock.seconds } s.disk
  | effect (e : Effect) (rest : List Effect) (after : Disk) (hphase : s.depot.phase = .saving (e :: rest))
      (heffect : s.disk.perform e = (after, .ok ())) :
      PromptTurn file s { s.depot with phase := .saving rest } after

/-- The list is complete, but for failures and what closes the queue. -/
theorem Prompt.turn_of_turn (h : Prompt file s) (hturn : Turn s.clock s.disk s.depot d' disk')
    (hopen : d'.isClosed = false)
    (hfailures : d'.counters.checkpointFailures = s.depot.counters.checkpointFailures) :
    PromptTurn file s d' disk' := by
  cases hturn with
  | beginSave target bytes hphase hdue htarget hbytes =>
    obtain rfl := Option.some.inj (htarget.symm.trans h.target)
    exact .begin bytes hphase hdue hbytes
  | takeWrite handled changed r rest htakes hqueue => exact .take handled changed (.write r) rest htakes hqueue
  | takeFlush handled changed ticket rest htakes hqueue =>
    exact .take handled changed (.flush ticket) rest htakes hqueue
  | endQuietly handled changed hphase hfull hquiet =>
    have hdeadline : s.depot.deadline = none := h.deadline_eq_none (by simp [hphase])
    have hunchanged : changed = false := by
      rcases hquiet with hchanged | htarget | hset
      · exact hchanged
      · cases htarget.symm.trans h.target
      · exact absurd hdeadline hset
    have hpause : PromptTurn file s _ s.disk := .pause handled changed hphase hfull
    rw [hunchanged, if_neg Bool.false_ne_true, ← hdeadline] at hpause
    exact hpause
  | endArmed handled target hphase hfull htarget hdeadline hclock =>
    obtain rfl := Option.some.inj (htarget.symm.trans h.target)
    exact .pause handled true hphase hfull
  | saved hphase => exact .saved hphase
  | saveEffect e rest after hphase heffect => exact .effect e rest _ hphase heffect
  | skipSave _ _ hnone => cases hnone.symm.trans h.target
  | refuseSave | saveFault => exact absurd hfailures (Nat.succ_ne_self _)
  | takeShutdown | close | die | exitInMemory | beginFinish | refuseFinish | finished | finishEffect
  | finishFault => cases hopen
  | drainWrite _ _ hphase | drainFlush _ _ hphase | drainShutdown _ hphase =>
    have hdraining : s.depot.isClosed = false := hopen
    rw [isClosed, hphase] at hdraining
    cases hdraining

/-- Every step keeps the writer prompt. -/
theorem Prompt.turn (h : Prompt file s) (hturn : PromptTurn file s d' disk') :
    Prompt file { s with depot := d', disk := disk' } := by
  cases hturn with
  | begin bytes hphase hdue hbytes =>
    refine .of_unset h.target h.word rfl ?_
    intro pending hpending
    obtain rfl := Phase.saving.inj hpending
    exact ⟨bytes, hbytes, staged_replacement file bytes _, List.suffix_rfl⟩
  | take handled changed m rest htakes hqueue =>
    have hword : .shutdown ∉ m :: rest := hqueue ▸ h.word
    cases m with
    | write r | flush ticket =>
      refine .of_unset h.target ?_ (h.deadline_of_takes htakes) ?_
      · intro hmem
        exact hword (List.mem_cons_of_mem _ hmem)
      · intro pending hpending
        cases hpending
    | shutdown => exact absurd List.mem_cons_self hword
  | pause handled changed hphase hfull =>
    refine ⟨h.target, h.word, ?_, ?_⟩
    · intro due hset
      have hset : (if changed then some s.clock.millis else none) = some due := hset
      split at hset
      · exact ⟨rfl, Nat.le_of_eq (Option.some.inj hset).symm⟩
      · cases hset
    · intro pending hpending
      cases hpending
  | saved hphase =>
    refine .of_unset h.target h.word (h.deadline_eq_none (by simp [hphase])) ?_
    intro pending hpending
    cases hpending
  | effect e rest after hphase heffect =>
    refine .of_unset h.target h.word (h.deadline_eq_none (by simp [hphase])) ?_
    intro pending hpending
    obtain rfl := Phase.saving.inj hpending
    obtain ⟨bytes, hbytes, hstaged, hsuffix⟩ := h.staged _ hphase
    exact ⟨bytes, hbytes, hstaged.advance heffect, (List.suffix_cons e rest).trans hsuffix⟩

/-- **Every step is the first deed of the outlook.** -/
theorem Prompt.outlook_eq (h : Prompt file s) (hturn : PromptTurn file s d' disk') :
    s.depot.outlook = ((Depot.deed? s.clock s.disk disk' s.depot d').toList ++ ·) <$> d'.outlook := by
  cases hturn with
  | begin bytes hphase hdue hbytes =>
    have hset : s.depot.deadline.isSome = true := Option.isSome_iff_ne_none.mpr (deadline_ne_none_of_isDue hdue)
    have hdeed : s.depot.begins s.clock = true := by simp [begins, hphase, hdue, h.target]
    have hsaving := outlook_of_saving
      (d := { s.depot with deadline := none, phase := .saving (replacement file bytes) }) rfl hbytes
    rw [Depot.deed?, if_pos hdeed, hsaving, Functor.map_map, outlook, hphase]
    simp only [hset, if_true, if_neg (replacement_ne_nil file bytes)]
    exact checkpointed_eq hbytes _
  | take handled changed m rest htakes hqueue =>
    rw [deed?_of_takes htakes hqueue, outlook_of_takes htakes fun _ => h.deadline_of_takes htakes, hqueue]
    cases m with
    | write r =>
      rw [inBatch_write]
      rfl
    | flush ticket =>
      rw [inBatch_flush]
      rfl
    | shutdown =>
      refine absurd ?_ h.word
      rw [hqueue]
      exact List.mem_cons_self
  | pause handled changed hphase hfull =>
    have hpause : Depot.deed? s.clock s.disk s.disk s.depot
        { s.depot with phase := .idle, deadline := if changed then some s.clock.millis else none } = none := by
      refine deed?_of_pause (by simp [begins, hphase]) (pending?_of_phase hphase) ?_ rfl
      rcases hfull with hqueue | hlimit
      · exact Or.inl hqueue
      · right
        rw [isTaking, hphase]
        exact decide_eq_false (Nat.not_lt.mpr hlimit)
    rw [hpause, outlook, hphase]
    show inBatch (batchLimit - handled) changed s.depot.catalog s.depot.queue = ([] ++ ·) <$> _
    rw [map_nil_append, inBatch_over (hfull.imp_right Nat.sub_eq_zero_of_le), outlook]
    cases changed <;> rfl
  | saved hphase =>
    obtain ⟨bytes, hbytes, -⟩ := h.staged _ hphase
    have hcounts : Depot.deed? s.clock s.disk s.disk s.depot
        { s.depot with phase := .idle, counters := s.depot.counters.checkpointWritten s.clock.seconds }
          = some .counts := by
      have hreplaces : s.depot.replaces s.disk = false :=
        replaces_of_pending (Or.inr (pending?_of_phase hphase))
      rw [Depot.deed?, hreplaces]
      simp [begins, isTaking, hphase, Counters.checkpointWritten]
    have hdeadline : s.depot.deadline = none := h.deadline_eq_none (by simp [hphase])
    rw [hcounts, outlook_of_saving hphase hbytes, if_pos rfl, outlook]
    simp only [hdeadline]
    rfl
  | effect e rest after hphase heffect =>
    obtain ⟨bytes, hbytes, hstaged, hsuffix⟩ := h.staged _ hphase
    have hreplaces : s.depot.replaces s.disk = rest.isEmpty :=
      replaces_of_effect h.target (pending?_of_phase hphase) hsuffix heffect
    have hsaving := outlook_of_saving (d := { s.depot with phase := .saving rest }) rfl hbytes
    rw [outlook_of_saving hphase hbytes, hsaving, Functor.map_map, Depot.deed?, hreplaces]
    cases rest with
    | nil =>
      cases hstaged.advance heffect with
      | done hread => simp [begins, isTaking, hphase, h.target, hread]
    | cons next rest => simp [begins, isTaking, hphase]

-- ── Along a run ─────────────────────────────────────────────────────────────

theorem deed?_of_ne (ha : a ≠ .work) : s.deed? a = none := by
  cases a with
  | work => exact absurd rfl ha
  | _ => rfl

theorem sent_hold (s : Site) {change : Depot → Depot} (hchange : ∀ d, Sent [] d (change d)) :
    Sent [] s.depot (s.hold change).depot := by
  rw [hold]
  split
  · exact .none _
  · exact hchange s.depot

/-- Who is silent sends nothing. -/
theorem sent_of_silent (s : Site) (hsilent : a.isSilent = true) (ha : a ≠ .work) :
    Sent [] s.depot (s.perform a).depot := by
  cases a with
  | submit | flush | beginShutdown => cases hsilent
  | work => exact absurd rfl ha
  | look | wait | outside => exact .none _
  | endShutdown => exact sent_hold s sent_endedShutdown
  | clone | drop =>
    refine sent_hold s fun d => ?_
    exact ⟨(List.append_nil _).symm, rfl, rfl, rfl, rfl, rfl, rfl, fun h => absurd rfl h⟩

theorem Prompt.aside {s' : Site} (h : Prompt file s) (hsent : Sent [] s.depot s'.depot)
    (hclock : s.clock.millis ≤ s'.clock.millis) (hfiles : LeavesAlone file s s'.disk.files) :
    Prompt file s' := by
  have hqueue : s'.depot.queue = s.depot.queue := hsent.queue.trans (List.append_nil _)
  refine ⟨hsent.target.trans h.target, hqueue ▸ h.word, ?_, ?_⟩
  · intro due hset
    obtain ⟨hphase, hdue⟩ := h.timely due (hsent.deadline.symm.trans hset)
    exact ⟨hsent.phase.trans hphase, Nat.le_trans hdue hclock⟩
  · intro pending hpending
    have hphase : s.depot.phase = .saving pending := hsent.phase.symm.trans hpending
    obtain ⟨bytes, hbytes, hstaged, hsuffix⟩ := h.staged pending hphase
    have hunderway : s.depot.pending? ≠ none := by
      rw [pending?_of_phase hphase]
      exact Option.some_ne_none pending
    refine ⟨bytes, ?_, hstaged.undisturbed hfiles.untouched (hfiles.staging hunderway), hsuffix⟩
    rw [hsent.catalog]
    exact hbytes

theorem outlook_of_sent {d d' : Depot} (hsent : Sent [] d d') : d'.outlook = d.outlook := by
  have hqueue : d'.queue = d.queue := hsent.queue.trans (List.append_nil _)
  rw [outlook, outlook, hsent.phase, hsent.catalog, hsent.deadline, hqueue]

/-- A writer that waits, and has not closed its queue, waits for the holders that are left. -/
theorem idle_of_rest (hrests : s.depot.step s.clock s.disk = none) (hopen : s.depot.isClosed = false) :
    s.depot.phase = .idle ∧ s.depot.queue = [] ∧ s.depot.isDue s.clock = false := by
  rcases idle_or_over_of_step_none hrests with ⟨hphase, hqueue, -, hdue⟩ | hover
  · exact ⟨hphase, hqueue, hdue⟩
  · cases hopen.symm.trans (frozen_of_over hover).1

/-- **What a silent action does is the first deed of the outlook**, unless it fails or closes
    the queue. -/
theorem Prompt.perform (h : Prompt file s) (hsilent : a.isSilent = true)
    (hfiles : ∀ disk, a = .outside disk → LeavesAlone file s disk.files)
    (hopen : (s.perform a).depot.isClosed = false)
    (hfailures : (s.perform a).depot.counters.checkpointFailures = s.depot.counters.checkpointFailures) :
    Prompt file (s.perform a) ∧
      s.depot.outlook = ((s.deed? a).toList ++ ·) <$> (s.perform a).depot.outlook := by
  have hquiet : ∀ {s' : Site}, a ≠ .work → Sent [] s.depot s'.depot →
      s.depot.outlook = ((s.deed? a).toList ++ ·) <$> s'.depot.outlook := by
    intro s' ha hsent
    rw [deed?_of_ne ha, outlook_of_sent hsent]
    exact (map_nil_append _).symm
  have hsame : LeavesAlone file s s.disk.files := ⟨.refl _ _, fun _ => rfl⟩
  have hhappens := happens s a
  have hsent := sent_of_silent s hsilent
  generalize hs' : s.perform a = s' at *
  cases hhappens with
  | send messages depot ha => exact ⟨h.aside (hsent ha) (Nat.le_refl _) hsame, hquiet ha (hsent ha)⟩
  | turn depot disk ha hturn =>
    have hturn := h.turn_of_turn hturn hopen hfailures
    refine ⟨h.turn hturn, ?_⟩
    rw [ha, deed?, ← ha, hs']
    exact h.outlook_eq hturn
  | rest ha hrests =>
    obtain ⟨hphase, hqueue, hdue⟩ := idle_of_rest hrests hopen
    have hnothing : Depot.deed? s.clock s.disk s.disk s.depot s.depot = none :=
      deed?_of_pause (by simp [begins, hphase, hdue]) (pending?_of_phase hphase) (Or.inl hqueue) rfl
    refine ⟨h, ?_⟩
    rw [ha, deed?, ← ha, hs', hnothing]
    exact (map_nil_append _).symm
  | pass millis ha =>
    have hne : a ≠ .work := by
      rintro rfl
      cases ha
    exact ⟨h.aside (hsent hne) (Nat.le_add_right _ millis) hsame, hquiet hne (hsent hne)⟩
  | outside disk ha =>
    have hne : a ≠ .work := by
      rintro rfl
      cases ha
    exact ⟨h.aside (hsent hne) (Nat.le_refl _) (hfiles disk ha), hquiet hne (hsent hne)⟩

/-- Failures are never taken back. -/
theorem failures_le_after (s : Site) (run : List Action) :
    s.depot.counters.checkpointFailures ≤ (s.after run).depot.counters.checkpointFailures := by
  induction run generalizing s with
  | nil => exact Nat.le_refl _
  | cons a run ih =>
    refine Nat.le_trans ?_ (ih (s.perform a))
    have hhappens := happens s a
    generalize s.perform a = s' at hhappens
    cases hhappens with
    | send messages depot _ hsent =>
      rw [hsent.counters]
    | turn depot disk _ hturn => exact hturn.failures_le
    | rest | pass | outside => exact Nat.le_refl _

/-- **A silent run does what the outlook says.** -/
theorem Prompt.after {run : List Action} (h : Prompt file s) (hsilent : ∀ a ∈ run, a.isSilent = true)
    (hundisturbed : Undisturbed file s run) (hopen : (s.after run).depot.isClosed = false)
    (hfailures : (s.after run).depot.counters.checkpointFailures = s.depot.counters.checkpointFailures) :
    Prompt file (s.after run) ∧ s.depot.outlook = (s.deeds run ++ ·) <$> (s.after run).depot.outlook := by
  induction run generalizing s with
  | nil => exact ⟨h, (map_nil_append _).symm⟩
  | cons a run ih =>
    obtain ⟨hfiles, hrest⟩ := hundisturbed
    have hopen' : (s.perform a).depot.isClosed = false := by
      refine Bool.eq_false_iff.mpr ?_
      intro hclosed
      cases hopen.symm.trans (closed_after hclosed run)
    -- what has not failed in the end did not fail on the way
    have hfirst := failures_le_after s [a]
    have hlater := failures_le_after (s.perform a) run
    have hfailures : ((s.perform a).after run).depot.counters.checkpointFailures
        = s.depot.counters.checkpointFailures := hfailures
    have hfirst : s.depot.counters.checkpointFailures
        ≤ (s.perform a).depot.counters.checkpointFailures := hfirst
    have hstep := h.perform (hsilent a List.mem_cons_self) hfiles hopen' (by omega)
    obtain ⟨hnow, hdeed⟩ := hstep
    obtain ⟨hend, hdeeds⟩ := ih hnow (fun b hb => hsilent b (List.mem_cons_of_mem a hb)) hrest hopen (by omega)
    refine ⟨hend, ?_⟩
    rw [hdeed, hdeeds, Functor.map_map, deeds]
    simp only [List.append_assoc]
    rfl

/-- Left to itself, the writer keeps its queue open. -/
theorem open_after_works (hopen : s.depot.isClosed = false) (hhandles : s.depot.handles ≠ 0)
    (hword : .shutdown ∉ s.depot.queue)
    (hclock : ∀ target, s.depot.target = some target → s.clock.millis + target.interval < Clock.limit)
    (n : Nat) : (s.after (works n)).depot.isClosed = false := by
  induction n generalizing s with
  | zero => exact hopen
  | succ n ih =>
    show ((s.perform .work).after (works n)).depot.isClosed = false
    have hhappens := happens s .work
    generalize s.perform .work = s' at hhappens
    cases hhappens with
    | send _ _ ha => exact absurd rfl ha
    | turn depot disk _ hturn =>
      obtain ⟨hopen, hword⟩ := hturn.stays_open hopen hhandles hword hclock
      refine ih hopen ?_ hword ?_
      · rw [hturn.holders.1]
        exact hhandles
      · intro target htarget
        exact hclock target (hturn.target.symm.trans htarget)
    | rest => exact ih hopen hhandles hword hclock
    | pass _ ha | outside _ ha => cases ha

/-- The writer by itself leaves nobody else a chance. -/
theorem undisturbed_works (file : String) (s : Site) (n : Nat) : Undisturbed file s (works n) := by
  induction n generalizing s with
  | zero => exact trivial
  | succ n ih =>
    refine ⟨?_, ih (s.perform .work)⟩
    intro disk houtside
    cases houtside

/-- **One checkpoint for each batch that changes something.** Let the writer wait, without an
    interval, without a checkpoint that is set, and with whatever queue in which nobody says
    the word to stop.  Let nobody send anything more, and nobody else touch the file; then,
    whenever the writer waits again and no checkpoint has failed, it has done what was
    prescribed: it has taken the messages 1024 at a time, and behind each batch with a request
    that changed the catalog, before the next, it has written one checkpoint, which was that
    of the catalog then.  And it does wait again, if it has a holder and is left to itself. -/
theorem checkpoint_per_changing_batch (hidle : s.depot.phase = .idle) (hdeadline : s.depot.deadline = none)
    (htarget : s.depot.target = some ⟨file, 0⟩) (hword : .shutdown ∉ s.depot.queue) :
    (∀ run, (∀ a ∈ run, a.isSilent = true) → Undisturbed file s run →
        let now := s.after run
        now.depot.phase = .idle → now.depot.step now.clock now.disk = none →
        now.depot.counters.checkpointFailures = s.depot.counters.checkpointFailures →
          prescribed s.depot.catalog (batchesOf s.depot.queue) = .ok (s.deeds run)) ∧
      (s.depot.handles ≠ 0 → s.clock.millis < Clock.limit → ∀ n, s.depot.ahead s.clock ≤ n →
        let now := s.after (works n)
        now.depot.phase = .idle ∧ now.depot.step now.clock now.disk = none) := by
  have hopen : s.depot.isClosed = false := by rw [isClosed, hidle]
  refine ⟨?_, ?_⟩
  · intro run hsilent hundisturbed now hwaiting hrests hfailures
    have hprompt : Prompt file s := by
      refine .of_unset htarget hword hdeadline ?_
      intro pending hpending
      cases hidle.symm.trans hpending
    have hnow : now.depot.isClosed = false := by rw [isClosed, hwaiting]
    obtain ⟨hend, hdeeds⟩ := hprompt.after hsilent hundisturbed hnow hfailures
    -- in the beginning all is prescribed, and in the end nothing is left
    have hbegin : s.depot.outlook = prescribed s.depot.catalog (batchesOf s.depot.queue) := by
      rw [outlook, hidle, hdeadline]
      rfl
    have hnothing : now.depot.outlook = .ok [] := by
      obtain ⟨-, hqueue, hdue⟩ := idle_of_rest hrests hnow
      rw [outlook, hwaiting, hend.deadline_of_not_due hdue, hqueue, batchesOf_nil]
      rfl
    rw [← hbegin, hdeeds, hnothing]
    exact congrArg Except.ok (List.append_nil _)
  · intro hhandles hclock n hn now
    have hrests : now.depot.step now.clock now.disk = none := by
      show (s.after (works n)).depot.step (s.after (works n)).clock (s.after (works n)).disk = none
      rw [after_works]
      exact step_run hn
    have hnow : now.depot.isClosed = false := by
      refine open_after_works hopen hhandles hword ?_ n
      intro target haim
      obtain rfl := Option.some.inj (haim.symm.trans htarget)
      exact hclock
    exact ⟨(idle_of_rest hrests hnow).1, hrests⟩

/-- The flushes of a full batch. -/
def flushes : List Message := (List.range 1024).map .flush

/-- A depot without an interval that waits, with as many flushes queued as a batch holds, and
    behind them a push and one more flush. -/
def crowded : Site :=
  ⟨⟨0, 0⟩,
    { Depot.start .empty (some ⟨"depot.ckpt", 0⟩) with
      queue := flushes ++ [.write upPush, .flush 1024]
      tickets := 1025 },
    .sound .empty⟩

/-- Behind the first batch no checkpoint is written, and behind the second, which is not full,
    one is. -/
theorem checkpoint_per_changing_batch_crowded :
    let pushed := (Catalog.empty.apply upPush).1
    (crowded.after (works 10300)).depot.phase = .idle ∧
      ∃ bytes, encode pushed = .ok bytes ∧
        crowded.deeds (works 10300) =
          flushes.map .takes ++ [.takes (.write upPush), .takes (.flush 1024), .begins, .replaces (.ok bytes),
            .counts] := by
  intro pushed
  have hlength : flushes.length = batchLimit := by rw [flushes, List.length_map, List.length_range, batchLimit]
  have hrequests : flushes.filterMap Message.request? = [] := by
    rw [flushes, List.filterMap_map]
    exact List.filterMap_eq_nil_iff.mpr fun _ _ => rfl
  obtain ⟨hruns, hrests⟩ :=
    checkpoint_per_changing_batch (s := crowded) rfl rfl rfl (by simp [crowded, flushes])
  obtain ⟨hwaiting, hrest⟩ := hrests (by decide) (by decide) 10300 (by decide +kernel)
  have hfailures : (crowded.after (works 10300)).depot.counters.checkpointFailures = 0 := by
    rw [after_works]
    decide +kernel
  have hdeeds := hruns (works 10300) (fun a ha => List.eq_of_mem_replicate ha ▸ rfl)
    (undisturbed_works _ _ _) hwaiting hrest hfailures
  have hbatches : batchesOf crowded.depot.queue = [flushes, [.write upPush, .flush 1024]] := by
    have hqueue : crowded.depot.queue = flushes ++ [.write upPush, .flush 1024] := rfl
    rw [hqueue, batchesOf_append hlength]
    simp [batchesOf, batchLimit]
  have hprescribed : prescribed .empty [flushes, [.write upPush, .flush 1024]] =
      (flushes.map .takes ++ ·) <$> ([.takes (.write upPush), .takes (.flush 1024)] ++ ·) <$>
        checkpointed pushed (.ok []) := by
    rw [prescribed, hrequests]
    rfl
  refine ⟨hwaiting, ?_⟩
  rw [hbatches] at hdeeds
  have hdeeds := hprescribed.symm.trans hdeeds
  cases hencode : encode pushed with
  | ok bytes =>
    rw [checkpointed_eq hencode] at hdeeds
    exact ⟨bytes, rfl, (Except.ok.inj hdeeds).symm⟩
  | error fault =>
    rw [checkpointed, hencode] at hdeeds
    cases hdeeds

end Site

end MetricDepot
