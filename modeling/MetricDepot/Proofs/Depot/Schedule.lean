import MetricDepot.Proofs.Checkpoint.Restored
import MetricDepot.Proofs.Depot.History
/-!
# Schedule — when checkpoints are due, and what the file holds when none is

    Between batches the deadline is a function of the history.  While a change is in no
    checkpoint one is due: an interval after the end of the batch that made the first such
    change, or five seconds after the last failure since then, `due?`.  While all changes
    are in a checkpoint nothing is due, and the file holds the catalog as it is.

    `Timing` is all that a turn does to the deadline, with the event that it makes.
-/

namespace MetricDepot

open FileSystem Checkpoint

-- ── What a history says is due ──────────────────────────────────────────────

namespace Event

/-- When a checkpoint is due that some events call for: a while after the last failure, or if
    there is none, an interval after the first end of a batch. -/
def due? (interval : Duration) (events : List Event) : Option Nat :=
  match (events.filterMap failed?).getLast? with
  | some millis => some (millis + Depot.retryDelay)
  | none => (events.filterMap paused?).head?.map (· + interval)

variable {interval : Duration} {events more : List Event}

theorem due?_change : due? interval (events ++ [change]) = due? interval events := by
  simp [due?, failed?, paused?]

theorem due?_failure (millis : Nat) :
    due? interval (events ++ [failure millis]) = some (millis + Depot.retryDelay) := by
  simp [due?, failed?]

/-- Only the first end of a batch counts, and none behind a failure. -/
theorem due?_pause (millis : Nat) :
    due? interval (events ++ [pause millis]) = (due? interval events).or (some (millis + interval)) := by
  simp only [due?, failed?, paused?, List.filterMap_append, List.filterMap_cons, List.filterMap_nil,
    List.append_nil]
  split
  next => rfl
  next =>
    cases events.filterMap paused? with
    | nil => rfl
    | cons first rest => rfl

/-- What is due stays due until an attempt fails or succeeds: no later change postpones it. -/
theorem due?_append {due : Nat} (h : due? interval events = some due)
    (hmore : ∀ e ∈ more, e = change ∨ ∃ millis, e = pause millis) :
    due? interval (events ++ more) = some due := by
  induction more using List.reverseRecOn with
  | nil => rwa [List.append_nil]
  | append_singleton more e ih =>
    have ih := ih (fun e he => hmore e (List.mem_append_left _ he))
    rw [← List.append_assoc]
    rcases hmore e (by simp) with rfl | ⟨millis, rfl⟩
    · rw [due?_change, ih]
    · rw [due?_pause, ih]
      rfl

end Event

/-- What the batch has changed so far, while the writer waits or is in one. -/
def Phase.collected? : Phase → Option Bool
  | idle => some false
  | batch _ changed => some changed
  | _ => none

namespace Depot

open Event

variable {clock : Clock} {disk disk' : Disk} {d d' : Depot} {target : Target} {events : List Event}

-- ── What a turn does to the schedule ────────────────────────────────────────

theorem collected?_of_takes {handled : Nat} {changed : Bool} (h : Takes clock d handled changed) :
    d.phase.collected? = some changed := by
  rcases h with ⟨hphase, -, -, rfl⟩ | ⟨hphase, -⟩
  · rw [hphase]
    rfl
  · rw [hphase]
    rfl

theorem collected?_of_phase {phase : Phase} (h : d.phase = phase) :
    d.phase.collected? = phase.collected? := congrArg Phase.collected? h

theorem deadline_ne_none_of_isDue (h : d.isDue clock = true) : d.deadline ≠ none := by
  intro hnone
  rw [isDue, hnone] at h
  cases h

/-- What a step of the writer may do to the deadline, with the event that it makes. -/
inductive Timing (clock : Clock) (interval : Duration) (d d' : Depot) : Prop where
  | collect (changed : Bool) (hbefore : d.phase.collected? = some changed)
      (hafter : d'.phase.collected? = some changed) (hdeadline : d'.deadline = d.deadline)
      (hevent : d.event? clock d' = none)
  | change (changed : Bool) (hbefore : d.phase.collected? = some changed)
      (hafter : d'.phase.collected? = some true) (hdeadline : d'.deadline = d.deadline)
      (hevent : d.event? clock d' = some .change)
  | pause (changed : Bool) (hbefore : d.phase.collected? = some changed)
      (hafter : d'.phase.collected? = some false)
      (hdeadline : d'.deadline =
        if changed then d.deadline.or (some (clock.millis + interval)) else d.deadline)
      (hevent : d.event? clock d' = some (.pause clock.millis))
  | begin (pending : List Effect) (hbefore : d.phase.collected? = some false)
      (hdue : d.deadline ≠ none) (hafter : d'.phase = .saving pending) (hdeadline : d'.deadline = none)
      (hevent : d.event? clock d' = none)
  | effect (pending rest : List Effect) (hbefore : d.phase = .saving pending)
      (hafter : d'.phase = .saving rest) (hdeadline : d'.deadline = d.deadline)
      (hevent : d.event? clock d' = none)
  | fail (hbefore : (∃ pending, d.phase = .saving pending) ∨
        d.phase.collected? = some false ∧ d.deadline ≠ none)
      (hafter : d'.phase.collected? = some false)
      (hdeadline : d'.deadline = some (clock.millis + retryDelay))
      (hevent : d.event? clock d' = some (.failure clock.millis))
  | succeed (pending : List Effect) (hbefore : d.phase = .saving pending)
      (hafter : d'.phase.collected? = some false) (hdeadline : d'.deadline = d.deadline)
      (hevent : d.event? clock d' = some .success)
  | close (hafter : d'.isClosed = true)

theorem Turn.timing (h : Turn clock disk d d' disk') (htarget : d.target = some target) :
    Timing clock target.interval d d' := by
  cases h with
  | skipSave _ _ hnone => cases htarget.symm.trans hnone
  | beginSave _ bytes hphase hdue =>
    exact .begin _ (collected?_of_phase hphase) (deadline_ne_none_of_isDue hdue) rfl rfl
      (event?_of_same rfl (by simp))
  | refuseSave _ _ hphase hdue =>
    refine .fail (Or.inr ⟨collected?_of_phase hphase, deadline_ne_none_of_isDue hdue⟩) rfl rfl ?_
    exact event?_of_failed rfl
  | takeWrite handled changed r rest htakes hqueue =>
    have hbefore := collected?_of_takes htakes
    cases hchanged : (d.catalog.apply r).2.changed with
    | true =>
      refine .change changed hbefore ?_ rfl ?_
      · show some (changed || true) = some true
        rw [Bool.or_true]
      · rw [event?_of_applied rfl, changesNext_of_queue hqueue, hchanged]
        rfl
    | false =>
      refine .collect changed hbefore ?_ rfl ?_
      · show some (changed || false) = some changed
        rw [Bool.or_false]
      · rw [event?_of_applied rfl, changesNext_of_queue hqueue, hchanged]
        rfl
  | takeFlush handled changed ticket rest htakes hqueue =>
    exact .collect changed (collected?_of_takes htakes) rfl rfl (event?_of_same rfl (by simp))
  | endQuietly handled changed hphase _ hquiet =>
    refine .pause changed (collected?_of_phase hphase) rfl ?_ (event?_of_pause rfl hphase rfl)
    cases changed with
    | false => rfl
    | true =>
      rcases hquiet with hfalse | hnone | hset
      · cases hfalse
      · cases htarget.symm.trans hnone
      · exact (Option.or_of_isSome (Option.isSome_iff_ne_none.mpr hset)).symm
  | endArmed handled aim hphase _ haim hdeadline =>
    obtain rfl := Option.some.inj (haim.symm.trans htarget)
    refine .pause true (collected?_of_phase hphase) rfl ?_ (event?_of_pause rfl hphase rfl)
    rw [hdeadline]
    rfl
  | saved hphase => exact .succeed [] hphase rfl rfl (event?_of_written rfl)
  | saveEffect e rest after hphase =>
    exact .effect (e :: rest) rest hphase rfl rfl (event?_of_same rfl (by simp))
  | saveFault e rest after reason hphase =>
    exact .fail (Or.inl ⟨e :: rest, hphase⟩) rfl rfl (event?_of_failed rfl)
  | takeShutdown | close | die | exitInMemory | beginFinish | refuseFinish | finished
  | finishEffect | finishFault => exact .close rfl
  | drainWrite _ _ hphase | drainFlush _ _ hphase | drainShutdown _ hphase =>
    refine .close ?_
    rw [isClosed, hphase]

-- ── The deadline ────────────────────────────────────────────────────────────

/-- The deadline is what the history says is due, and one is set as soon as the batch is over
    that makes the first change. -/
structure Scheduled (interval : Duration) (events : List Event) (d : Depot) : Prop where
  deadline : ∀ changed, d.phase.collected? = some changed → d.deadline = due? interval (unsaved events)
  pending : ∀ changed, d.phase.collected? = some changed →
    (unsaved events ≠ [] ↔ changed = true ∨ d.deadline ≠ none)
  saving : ∀ pending, d.phase = .saving pending → d.deadline = none ∧ unsaved events ≠ []

namespace Scheduled

variable {interval : Duration}

/-- What to show of a writer that waits or is in a batch. -/
theorem of_collected {changed : Bool} (hcollected : d.phase.collected? = some changed)
    (hdeadline : d.deadline = due? interval (unsaved events))
    (hpending : unsaved events ≠ [] ↔ changed = true ∨ d.deadline ≠ none) :
    Scheduled interval events d := by
  refine ⟨fun _ _ => hdeadline, ?_, ?_⟩
  · intro other hother
    obtain rfl := Option.some.inj (hcollected.symm.trans hother)
    exact hpending
  · intro pending hsaving
    rw [hsaving] at hcollected
    cases hcollected

theorem of_saving {pending : List Effect} (hphase : d.phase = .saving pending)
    (hdeadline : d.deadline = none) (hunsaved : unsaved events ≠ []) :
    Scheduled interval events d := by
  have hnone : d.phase.collected? = none := collected?_of_phase hphase
  refine ⟨?_, ?_, fun _ _ => ⟨hdeadline, hunsaved⟩⟩
  · intro changed hcollected
    cases hnone.symm.trans hcollected
  · intro changed hcollected
    cases hnone.symm.trans hcollected

/-- Once the queue is closed nothing is scheduled any more. -/
theorem of_closed (h : d.isClosed = true) : Scheduled interval events d := by
  rw [isClosed] at h
  refine ⟨?_, ?_, ?_⟩
  · intro changed hcollected
    cases hphase : d.phase <;> simp [hphase, Phase.collected?] at h hcollected
  · intro changed hcollected
    cases hphase : d.phase <;> simp [hphase, Phase.collected?] at h hcollected
  · intro pending hsaving
    simp [hsaving] at h

/-- Whoever is not the writer changes nothing in the schedule. -/
theorem rest (h : Scheduled interval events d) (hphase : d'.phase = d.phase)
    (hdeadline : d'.deadline = d.deadline) : Scheduled interval events d' := by
  refine ⟨?_, ?_, ?_⟩
  · intro changed hcollected
    rw [hdeadline]
    exact h.deadline changed (hphase ▸ hcollected)
  · intro changed hcollected
    rw [hdeadline]
    exact h.pending changed (hphase ▸ hcollected)
  · intro pending hsaving
    rw [hdeadline]
    exact h.saving pending (hphase ▸ hsaving)

/-- A batch that ends sets the deadline if it made the first change. -/
theorem pause (h : Scheduled interval events d) {changed : Bool}
    (hbefore : d.phase.collected? = some changed) (hafter : d'.phase.collected? = some false)
    (hdeadline : d'.deadline =
      if changed then d.deadline.or (some (clock.millis + interval)) else d.deadline) :
    Scheduled interval (events ++ [.pause clock.millis]) d' := by
  have hset := h.deadline changed hbefore
  have hpending := h.pending changed hbefore
  have hafterwards : unsaved (events ++ [.pause clock.millis]) = _ := unsaved_concat (by simp) (by simp)
  by_cases hnothing : unsaved events = []
  · -- nothing was changed, so nothing was set and nothing is
    rw [if_pos hnothing] at hafterwards
    have hnever : ¬ (changed = true ∨ d.deadline ≠ none) := fun hsome => hpending.mpr hsome hnothing
    have hnone : d'.deadline = none := by
      rw [hdeadline, if_neg (fun htrue => hnever (Or.inl htrue))]
      exact Classical.not_not.mp fun hsome => hnever (Or.inr hsome)
    refine of_collected hafter ?_ ?_
    · rw [hafterwards, hnone]
      rfl
    · rw [hafterwards, hnone]
      simp
  · rw [if_neg hnothing] at hafterwards
    have hdue : d'.deadline = d.deadline.or (some (clock.millis + interval)) := by
      rw [hdeadline]
      split
      next => rfl
      next hfalse =>
        have hsome := (hpending.mp hnothing).resolve_left hfalse
        exact (Option.or_of_isSome (Option.isSome_iff_ne_none.mpr hsome)).symm
    refine of_collected hafter ?_ ?_
    · rw [hafterwards, due?_pause, ← hset, hdue]
    · rw [hafterwards, hdue]
      simp

/-- A failure sets the next attempt. -/
theorem fail (hunsaved : unsaved events ≠ []) (hafter : d'.phase.collected? = some false)
    (hdeadline : d'.deadline = some (clock.millis + retryDelay)) :
    Scheduled interval (events ++ [.failure clock.millis]) d' := by
  have hafterwards : unsaved (events ++ [.failure clock.millis]) = _ := unsaved_concat (by simp) (by simp)
  rw [if_neg hunsaved] at hafterwards
  refine of_collected hafter ?_ ?_
  · rw [hafterwards, due?_failure, hdeadline]
  · rw [hafterwards, hdeadline]
    simp

/-- What the writer does keeps the deadline to the schedule. -/
theorem turn (h : Scheduled interval events d) (htiming : Timing clock interval d d') :
    Scheduled interval (events ++ (d.event? clock d').toList) d' := by
  cases htiming with
  | collect changed hbefore hafter hdeadline hevent =>
    rw [hevent, Option.toList_none, List.append_nil]
    refine of_collected hafter ?_ ?_
    · rw [hdeadline, h.deadline changed hbefore]
    · rw [hdeadline]
      exact h.pending changed hbefore
  | change changed hbefore hafter hdeadline hevent =>
    rw [hevent, Option.toList_some]
    refine of_collected hafter ?_ ?_
    · rw [unsaved_change, due?_change, hdeadline, h.deadline changed hbefore]
    · rw [unsaved_change]
      simp
  | pause changed hbefore hafter hdeadline hevent =>
    rw [hevent, Option.toList_some]
    exact h.pause hbefore hafter hdeadline
  | begin pending hbefore hdue hafter hdeadline hevent =>
    rw [hevent, Option.toList_none, List.append_nil]
    exact of_saving hafter hdeadline ((h.pending false hbefore).mpr (Or.inr hdue))
  | effect pending rest hbefore hafter hdeadline hevent =>
    rw [hevent, Option.toList_none, List.append_nil]
    obtain ⟨hnone, hunsaved⟩ := h.saving pending hbefore
    exact of_saving hafter (hdeadline.trans hnone) hunsaved
  | fail hbefore hafter hdeadline hevent =>
    rw [hevent, Option.toList_some]
    refine fail ?_ hafter hdeadline
    rcases hbefore with ⟨pending, hsaving⟩ | ⟨hcollected, hset⟩
    · exact (h.saving pending hsaving).2
    · exact (h.pending false hcollected).mpr (Or.inr hset)
  | succeed pending hbefore hafter hdeadline hevent =>
    rw [hevent, Option.toList_some]
    have hnone := hdeadline.trans (h.saving pending hbefore).1
    refine of_collected hafter ?_ ?_
    · rw [unsaved_success, hnone]
      rfl
    · rw [unsaved_success, hnone]
      simp
  | close hafter => exact of_closed hafter

end Scheduled

end Depot

-- ── The file ────────────────────────────────────────────────────────────────

namespace Site

open Depot Event

variable {initial : FileSystem} {start : Catalog} {target : Target} {requests : List Request}
  {saved counted : Option Nat} {events : List Event} {s s' : Site}

/-- Until a checkpoint is written the file is as it was opened, and when nothing is unsaved it
    holds the catalog.  Only between its move and the end of its checkpoint is the file ahead
    of the history. -/
structure Current (initial : FileSystem) (file : String) (events : List Event) (s : Site) : Prop where
  untouched : s.depot.pending? ≠ some [] → .success ∉ events → Untouched file initial s.disk.files
  held : s.depot.pending? ≠ some [] → .success ∈ events → unsaved events = [] →
    ∃ bytes, encode s.depot.catalog = .ok bytes ∧ s.disk.files.read file = .ok bytes

/-- While the file is untouched it holds what it held. -/
theorem Current.keep {file : String} {event : Option Event} (h : Current initial file events s)
    (hahead : s.depot.pending? ≠ some []) (hevent : event ≠ some .success)
    (hfile : Untouched file s.disk.files s'.disk.files)
    (hcatalog : event ≠ some .change → s'.depot.catalog = s.depot.catalog) :
    Current initial file (events ++ event.toList) s' := by
  have hsuccess : .success ∈ events ++ event.toList ↔ .success ∈ events := by
    rw [List.mem_append, Option.mem_toList]
    exact or_iff_left hevent
  refine ⟨?_, ?_⟩
  · intro _ hnever
    exact (h.untouched hahead (fun hmem => hnever (hsuccess.mpr hmem))).trans hfile
  · intro _ honce hnothing
    have hbefore : unsaved events = [] ∧ event ≠ some .change := by
      cases event with
      | none =>
        rw [Option.toList_none, List.append_nil] at hnothing
        exact ⟨hnothing, by simp⟩
      | some e =>
        obtain ⟨hnothing, hchange⟩ := unsaved_of_concat (fun heq => hevent (heq ▸ rfl)) hnothing
        exact ⟨hnothing, fun heq => hchange (Option.some.inj heq)⟩
    obtain ⟨bytes, hbytes, hread⟩ := h.held hahead (hsuccess.mp honce) hbefore.1
    exact ⟨bytes, (hcatalog hbefore.2).symm ▸ hbytes, hfile.read bytes hread⟩

/-- Whoever is not the writer changes nothing in the file. -/
theorem Current.rest {file : String} (h : Current initial file events s)
    (hphase : s'.depot.phase = s.depot.phase) (hcatalog : s'.depot.catalog = s.depot.catalog)
    (hfile : Untouched file s.disk.files s'.disk.files) : Current initial file events s' := by
  have hpending : s'.depot.pending? = s.depot.pending? := congrArg Phase.pending? hphase
  refine ⟨?_, ?_⟩
  · intro hahead hnever
    exact (h.untouched (hpending ▸ hahead) hnever).trans hfile
  · intro hahead honce hnothing
    obtain ⟨bytes, hbytes, hread⟩ := h.held (hpending ▸ hahead) honce hnothing
    exact ⟨bytes, hcatalog ▸ hbytes, hfile.read bytes hread⟩

/-- What the writer does keeps the file current. -/
theorem Current.turn (h : Current initial target.file events s)
    (hdurable : Durable initial start target requests saved counted s) (hsound : s.depot.catalog.Sound)
    {depot : Depot} {disk : Disk} (hturn : Turn s.clock s.disk s.depot depot disk) :
    Current initial target.file (events ++ (s.depot.event? s.clock depot).toList)
      { s with depot, disk } := by
  have hcatalog := hturn.catalog_eq hsound
  cases hturn.storage with
  | aside hbefore hafter hcounted =>
    exact h.keep (by simp [hbefore]) (event?_ne_success hcounted) (.refl _ _) hcatalog
  | begin _ bytes hbefore hafter _ hbytes hcounted =>
    exact h.keep (by simp [hbefore]) (event?_ne_success hcounted) (.refl _ _) hcatalog
  | effect e rest after hbefore hafter heffect _ _ hcounted =>
    by_cases hrest : rest = []
    · -- the file has been moved, which the history does not yet say
      have hahead : depot.pending? = some [] := hrest ▸ hafter
      exact ⟨fun hnot => absurd hahead hnot, fun hnot => absurd hahead hnot⟩
    · obtain ⟨bytes, -, hstaged, -⟩ := hdurable.staged _ hbefore
      have hfile := hstaged.untouched hrest
      rw [heffect] at hfile
      exact h.keep (by simp [hbefore]) (event?_ne_success hcounted) hfile hcatalog
  | fault e rest after reason hbefore hafter heffect hcounted =>
    obtain ⟨bytes, -, hstaged, -⟩ := hdurable.staged _ hbefore
    exact h.keep (by simp [hbefore]) (event?_ne_success hcounted) (hstaged.fault heffect) hcatalog
  | finish hbefore hafter =>
    obtain ⟨bytes, hbytes, hstaged, -⟩ := hdurable.staged _ hbefore
    have hevent := hturn.event?_of_done hbefore
    rw [hevent] at hcatalog
    rw [hevent, Option.toList_some]
    refine ⟨?_, ?_⟩
    · intro _ hnever
      exact absurd (List.mem_append_right _ List.mem_cons_self) hnever
    · intro _ _ _
      cases hstaged with
      | done hread =>
        refine ⟨bytes, ?_, hread⟩
        show encode depot.catalog = .ok bytes
        rw [hcatalog (by simp)]
        exact hbytes

-- ── Along a run ─────────────────────────────────────────────────────────────

/-- The deadline keeps to the schedule at every moment of a run. -/
theorem scheduled_after (start : Catalog) (target : Target) (clock : Clock) (disk : Disk)
    (run : List Action) :
    Scheduled target.interval ((opened start (some target) clock disk).history run)
      ((opened start (some target) clock disk).after run).depot := by
  induction run using List.reverseRecOn with
  | nil =>
    refine Scheduled.of_collected (rfl : Phase.idle.collected? = some false) rfl ?_
    exact ⟨fun hunsaved => absurd rfl hunsaved, fun hset => absurd rfl (hset.resolve_left (by simp))⟩
  | append_singleton run a ih =>
    have htarget := target_after (opened start (some target) clock disk) run
    rw [history_concat, after_append]
    generalize (opened start (some target) clock disk).after run = s at ih htarget ⊢
    show Scheduled _ _ (s.perform a).depot
    have hwitnessed := witnessed s a
    generalize s.perform a = s' at hwitnessed
    cases hwitnessed with
    | turn depot disk hturn hevent =>
      rw [hevent]
      exact ih.turn (hturn.timing htarget)
    | aside _ hevent hphase hdeadline =>
      rw [hevent, Option.toList_none, List.append_nil]
      exact ih.rest hphase hdeadline

/-- The file is current at every moment of an undisturbed run. -/
theorem current_after {start : Catalog} (hsound : start.Sound) (target : Target) (clock : Clock)
    (disk : Disk) (run : List Action)
    (hrun : Undisturbed target.file (opened start (some target) clock disk) run) :
    Current disk.files target.file ((opened start (some target) clock disk).history run)
      ((opened start (some target) clock disk).after run) := by
  induction run using List.reverseRecOn with
  | nil => exact ⟨fun _ _ => .refl _ _, fun _ hmem => nomatch hmem⟩
  | append_singleton run a ih =>
    obtain ⟨hbefore, halone, -⟩ := undisturbed_append.mp hrun
    have ih := ih hbefore
    have hdurable := durable_after start target clock disk run hbefore
    have hsound : ((opened start (some target) clock disk).after run).depot.catalog.Sound := by
      rw [(inOrder_after start (some target) clock disk run).catalog]
      exact hsound.applyAll _
    rw [history_concat, after_append]
    generalize (opened start (some target) clock disk).after run = s at ih hdurable hsound halone ⊢
    show Current _ _ _ (s.perform a)
    have hwitnessed := witnessed s a
    generalize s.perform a = s' at hwitnessed
    cases hwitnessed with
    | turn depot disk hturn hevent =>
      rw [hevent]
      exact ih.turn hdurable hsound hturn
    | aside _ hevent hphase _ hcatalog hdisk =>
      rw [hevent, Option.toList_none, List.append_nil]
      refine ih.rest hphase hcatalog ?_
      rcases hdisk with hsame | houtside
      · rw [hsame]
        exact .refl _ _
      · exact (halone s'.disk houtside).untouched

-- ── Between batches ─────────────────────────────────────────────────────────

/-- Whether the next step of the writer is an attempt to write a checkpoint, which may fail at
    once. -/
def Attempts (s : Site) : Prop :=
  (s.perform .work).depot.pending? ≠ none ∨
    s.depot.counters.checkpointFailures < (s.perform .work).depot.counters.checkpointFailures

/-- A writer that waits attempts only a checkpoint that is due. -/
theorem isDue_of_attempts (hidle : s.depot.phase = .idle) (h : s.Attempts) :
    s.depot.isDue s.clock = true := by
  rw [Attempts] at h
  have hhappens := happens s .work
  generalize s.perform .work = s' at h hhappens
  cases hhappens with
  | send _ _ ha => exact absurd rfl ha
  | rest =>
    rcases h with hpending | hfailed
    · exact absurd (pending?_of_phase hidle) hpending
    · exact absurd hfailed (Nat.lt_irrefl _)
  | pass _ ha | outside _ ha => cases ha
  | turn depot disk _ hturn =>
    cases hturn with
    | skipSave _ hdue | beginSave _ _ _ hdue | refuseSave _ _ _ hdue => exact hdue
    | takeWrite | takeFlush | takeShutdown =>
      rcases h with hpending | hfailed
      · exact absurd rfl hpending
      · exact absurd hfailed (Nat.lt_irrefl _)
    | close =>
      rcases h with hpending | hfailed
      · exact absurd rfl hpending
      · exact absurd hfailed (Nat.lt_irrefl _)
    | endQuietly _ _ hphase | endArmed _ _ hphase | die _ _ hphase | saved hphase
    | saveEffect _ _ _ hphase | saveFault _ _ _ _ hphase | drainWrite _ _ hphase
    | drainFlush _ _ hphase | drainShutdown _ hphase | exitInMemory hphase
    | beginFinish _ _ hphase | refuseFinish _ _ hphase | finished hphase
    | finishEffect _ _ _ hphase | finishFault _ _ _ _ hphase =>
      cases hidle.symm.trans hphase

/-- **Between batches the deadline follows from the history.** Whatever happens to a depot that
    was opened with a file, whenever its writer waits: a checkpoint is due exactly if a change
    was made since the last one was written, or since the depot was opened; it is due an
    interval after the end of the batch with the first such change, or five seconds after the
    last attempt that failed since, and no later change postpones it.  If none is due, and
    nobody else has touched the file, the file is as it was opened and nothing was changed, or
    it holds the checkpoint of the catalog.  Without such a change the writer attempts no
    checkpoint. -/
theorem schedule_of_run {file : String} {interval : Duration} {s : Site}
    (hopen : Depot.openFile file interval s.disk.files = .ok s.depot) (run : List Action)
    (hidle : (s.after run).depot.phase = .idle) :
    let now := s.after run
    (now.depot.deadline ≠ none ↔ .change ∈ sinceSaved (s.history run)) ∧
      (now.depot.deadline = none → Undisturbed file s run →
        (Untouched file s.disk.files now.disk.files ∧ .change ∉ s.history run) ∨
        ∃ bytes, encode now.depot.catalog = .ok bytes ∧ now.disk.files.read file = .ok bytes) ∧
      now.depot.deadline = due? interval (unsaved (s.history run)) ∧
      (∀ more due, now.depot.deadline = some due → (now.after more).depot.phase = .idle →
        (∀ e ∈ now.history more, e = .change ∨ ∃ millis, e = .pause millis) →
        (now.after more).depot.deadline = some due) ∧
      (now.Attempts → .change ∈ sinceSaved (s.history run)) := by
  intro now
  obtain ⟨start, clock, disk, hrestore, hs⟩ := eq_opened_of_openFile hopen
  have hscheduled : ∀ run, Scheduled interval (s.history run) (s.after run).depot := by
    intro run
    rw [hs]
    exact scheduled_after start ⟨file, interval⟩ clock disk run
  have hschedule : Scheduled interval (s.history run) now.depot := hscheduled run
  have hcollected : now.depot.phase.collected? = some false := collected?_of_phase hidle
  have hset : now.depot.deadline ≠ none ↔ unsaved (s.history run) ≠ [] := by
    rw [hschedule.pending false hcollected]
    exact (or_iff_right Bool.false_ne_true).symm
  have hdue := hschedule.deadline false hcollected
  refine ⟨hset.trans unsaved_ne_nil_iff, ?_, hdue, ?_, ?_⟩
  · intro hnone hrun
    have hnothing : unsaved (s.history run) = [] :=
      Classical.not_not.mp fun hunsaved => hset.mpr hunsaved hnone
    have hcurrent : Current s.disk.files file (s.history run) now := by
      subst hs
      exact current_after (Checkpoint.sound_restore hrestore) ⟨file, interval⟩ clock disk run hrun
    have hahead : now.depot.pending? ≠ some [] := by
      rw [pending?_of_phase hidle]
      exact fun h => nomatch h
    by_cases hsuccess : .success ∈ s.history run
    · exact Or.inr (hcurrent.held hahead hsuccess hnothing)
    · refine Or.inl ⟨hcurrent.untouched hahead hsuccess, ?_⟩
      -- no checkpoint was written, so what is in none is all that was changed
      have hall : sinceSaved (s.history run) = s.history run := by
        refine List.rtakeWhile_eq_self_iff.mpr ?_
        intro e he
        exact decide_eq_true fun heq => hsuccess (heq ▸ he)
      rw [← hall]
      exact fun hchange => unsaved_ne_nil_iff.mpr hchange hnothing
  · intro more due hsome hlater hmore
    have hlast := hscheduled (run ++ more)
    rw [history_append, after_append] at hlast
    have hunsaved : unsaved (s.history run) ≠ [] := by
      refine hset.mp ?_
      rw [hsome]
      exact Option.some_ne_none due
    have hsuccess : .success ∉ now.history more := by
      intro hmem
      rcases hmore _ hmem with heq | ⟨_, heq⟩ <;> cases heq
    have hfinal := hlast.deadline false (collected?_of_phase hlater)
    rw [unsaved_append hsuccess hunsaved] at hfinal
    exact hfinal.trans (due?_append (hdue.symm.trans hsome) hmore)
  · intro hattempts
    have hisDue := isDue_of_attempts hidle hattempts
    exact unsaved_ne_nil_iff.mp (hset.mp (deadline_ne_none_of_isDue hisDue))

/-- A depot with a file on an empty disk of which the first effect fails, seven milliseconds
    after the clock began. -/
def mishap : Site := ⟨⟨7, 0⟩, .start .empty (some ⟨"depot.ckpt", 20⟩), ⟨.empty, [some 0]⟩⟩

/-- A push is applied, and its checkpoint fails when it is due. -/
def failedOnce : List Action :=
  [.submit (.push ⟨"job", ""⟩ .epoch [⟨"up", "", .gauge, []⟩]), .work, .work, .wait 20, .work, .work]

theorem schedule_after_failedOnce :
    Depot.openFile "depot.ckpt" 20 mishap.disk.files = .ok mishap.depot ∧
      (mishap.after failedOnce).depot.phase = .idle ∧
      mishap.history failedOnce = [.change, .pause 7, .failure 27] ∧
      (mishap.after failedOnce).depot.deadline = some 5027 := by
  have hopen : Depot.openFile "depot.ckpt" 20 mishap.disk.files = .ok mishap.depot :=
    openFile_of_absent 20 (by decide +kernel)
  have hidle : (mishap.after failedOnce).depot.phase = .idle := by decide +kernel
  have hhistory : mishap.history failedOnce = [.change, .pause 7, .failure 27] := by decide +kernel
  have hdue := (schedule_of_run hopen failedOnce hidle).2.2.1
  have hlater : due? 20 (unsaved (mishap.history failedOnce)) = some 5027 := by
    rw [hhistory]
    decide
  exact ⟨hopen, hidle, hhistory, hdue.trans hlater⟩

end Site

end MetricDepot
