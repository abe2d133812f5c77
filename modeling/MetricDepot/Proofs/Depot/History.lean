import Mathlib.Data.List.DropRight
import MetricDepot.Proofs.Catalog.Requests
import MetricDepot.Proofs.Depot.Durable
/-!
# Histories — what of a run matters for checkpoints

    The history of a run is its list of events: a request was applied that changed the
    catalog, a batch ended, a checkpoint failed, a checkpoint was written.  Requests that
    change nothing leave no trace in it.

    `sinceSaved` is the end of a history behind its last written checkpoint, and `unsaved`
    the end of that from its first change on.  `witnessed` says who makes events: the writer
    by its turns, and nobody else.
-/

namespace MetricDepot

open FileSystem Checkpoint

-- ── Histories ───────────────────────────────────────────────────────────────

/-- What matters for the times of checkpoints, with the time where it matters. -/
inductive Event where
  | change
  | pause (millis : Nat)
  | failure (millis : Nat)
  | success
deriving DecidableEq

namespace Event

/-- When a batch ended, if one did. -/
def paused? : Event → Option Nat
  | pause millis => some millis
  | _ => none

/-- When a checkpoint failed, if one did. -/
def failed? : Event → Option Nat
  | failure millis => some millis
  | _ => none

end Event

namespace Depot

/-- Whether the first of the waiting requests is about to change the catalog. -/
def changesNext (d : Depot) : Bool :=
  match d.waiting with
  | r :: _ => (d.catalog.apply r).2.changed
  | [] => false

/-- The event of a step of the writer. -/
def event? (clock : Clock) (d d' : Depot) : Option Event :=
  if d.counters.checkpointFailures < d'.counters.checkpointFailures then some (.failure clock.millis)
  else if d.counters.checkpointsWritten < d'.counters.checkpointsWritten then some .success
  else if d.applied < d'.applied then if d.changesNext then some .change else none
  else
    match d.phase, d'.phase with
    | .batch .., .idle => some (.pause clock.millis)
    | _, _ => none

end Depot

namespace Site

/-- The event of an action. -/
def event? (s : Site) : Action → Option Event
  | .work => s.depot.event? s.clock (s.perform .work).depot
  | _ => none

/-- The events of a run, in order. -/
def history : Site → List Action → List Event
  | _, [] => []
  | s, a :: rest => (s.event? a).toList ++ history (s.perform a) rest

theorem history_append (s : Site) (run more : List Action) :
    s.history (run ++ more) = s.history run ++ (s.after run).history more := by
  induction run generalizing s with
  | nil => rfl
  | cons a run ih =>
    show (s.event? a).toList ++ (s.perform a).history (run ++ more)
      = ((s.event? a).toList ++ (s.perform a).history run) ++ _
    rw [ih, List.append_assoc]
    rfl

theorem history_concat (s : Site) (run : List Action) (a : Action) :
    s.history (run ++ [a]) = s.history run ++ ((s.after run).event? a).toList := by
  rw [history_append]
  show _ ++ (((s.after run).event? a).toList ++ []) = _
  rw [List.append_nil]

end Site

-- ── What is in no checkpoint ────────────────────────────────────────────────

namespace Event

/-- The events since the last checkpoint that was written, or since the beginning. -/
def sinceSaved (events : List Event) : List Event := events.rtakeWhile (· ≠ .success)

/-- The events from the first change on that is in no checkpoint. -/
def unsaved (events : List Event) : List Event := (sinceSaved events).dropWhile (· ≠ .change)

variable {events more : List Event} {e : Event}

theorem unsaved_ne_nil_iff : unsaved events ≠ [] ↔ change ∈ sinceSaved events := by
  rw [unsaved, Ne, List.dropWhile_eq_nil_iff]
  constructor
  · intro h
    by_contra habsent
    refine h ?_
    intro e he
    have hne : e ≠ change := fun heq => habsent (heq ▸ he)
    exact decide_eq_true hne
  · intro hmem h
    exact of_decide_eq_true (h change hmem) rfl

theorem sinceSaved_concat (h : e ≠ success) : sinceSaved (events ++ [e]) = sinceSaved events ++ [e] :=
  List.rtakeWhile_concat_pos _ _ _ (decide_eq_true h)

theorem unsaved_success : unsaved (events ++ [success]) = [] := by
  rw [unsaved, sinceSaved, List.rtakeWhile_concat_neg _ _ _ (by simp)]
  rfl

theorem unsaved_change : unsaved (events ++ [change]) = unsaved events ++ [change] := by
  rw [unsaved, sinceSaved_concat (by decide), List.dropWhile_append]
  show (if (unsaved events).isEmpty then [change] else unsaved events ++ [change]) = _
  split
  next hempty =>
    rw [List.isEmpty_iff.mp hempty]
    rfl
  next => rfl

/-- What else happens matters only behind a change. -/
theorem unsaved_concat (hsuccess : e ≠ success) (hchange : e ≠ change) :
    unsaved (events ++ [e]) = if unsaved events = [] then [] else unsaved events ++ [e] := by
  rw [unsaved, sinceSaved_concat hsuccess, List.dropWhile_append]
  have hskip : [e].dropWhile (· ≠ change) = [] := List.dropWhile_cons_of_pos (decide_eq_true hchange)
  show (if (unsaved events).isEmpty then [e].dropWhile (· ≠ change) else unsaved events ++ [e]) = _
  rw [hskip]
  simp only [List.isEmpty_iff]

/-- What happens keeps everything saved only if it was, and is no change. -/
theorem unsaved_of_concat (hsuccess : e ≠ success) (h : unsaved (events ++ [e]) = []) :
    unsaved events = [] ∧ e ≠ change := by
  by_cases hchange : e = change
  · rw [hchange, unsaved_change] at h
    cases (List.append_eq_nil_iff.mp h).2
  · rw [unsaved_concat hsuccess hchange] at h
    split at h
    next hnothing => exact ⟨hnothing, hchange⟩
    next => cases (List.append_eq_nil_iff.mp h).2

/-- What happens without a success leaves unsaved what was. -/
theorem unsaved_append (hsuccess : .success ∉ more) (h : unsaved events ≠ []) :
    unsaved (events ++ more) = unsaved events ++ more := by
  have hsince : sinceSaved (events ++ more) = sinceSaved events ++ more := by
    induction more using List.reverseRecOn with
    | nil => rw [List.append_nil, List.append_nil]
    | append_singleton more e ih =>
      have he : e ≠ success := fun heq => hsuccess (by simp [heq])
      rw [← List.append_assoc, sinceSaved_concat he,
        ih (fun hmem => hsuccess (List.mem_append_left _ hmem)), List.append_assoc]
  rw [unsaved, hsince, List.dropWhile_append]
  show (if (unsaved events).isEmpty then _ else unsaved events ++ more) = _
  rw [if_neg (fun hempty => h (List.isEmpty_iff.mp hempty))]

end Event

-- ── The event of a turn ─────────────────────────────────────────────────────

namespace Depot

variable {clock : Clock} {disk disk' : Disk} {d d' : Depot}

theorem event?_of_same (h : d'.counters = d.counters) (hphase : d'.phase ≠ .idle) :
    d.event? clock d' = none := by
  simp only [event?, applied, h, Nat.lt_irrefl, if_false]
  split
  next hidle => exact absurd hidle hphase
  next => rfl

theorem event?_of_pause {handled : Nat} {changed : Bool} (h : d'.counters = d.counters)
    (hbatch : d.phase = .batch handled changed) (hidle : d'.phase = .idle) :
    d.event? clock d' = some (.pause clock.millis) := by
  simp only [event?, applied, h, Nat.lt_irrefl, if_false, hbatch, hidle]

theorem event?_of_applied {o : Outcome} (h : d'.counters = d.counters.dequeued.applied o) :
    d.event? clock d' = if d.changesNext then some .change else none := by
  simp [event?, applied, h, Counters.applied, Counters.dequeued]

theorem event?_of_failed (h : d'.counters = d.counters.checkpointFailed) :
    d.event? clock d' = some (.failure clock.millis) := by
  simp [event?, h, Counters.checkpointFailed]

theorem event?_of_written {seconds : Nat} (h : d'.counters = d.counters.checkpointWritten seconds) :
    d.event? clock d' = some .success := by
  simp [event?, h, Counters.checkpointWritten]

theorem changesNext_of_queue {r : Request} {rest : List Message} (h : d.queue = .write r :: rest) :
    d.changesNext = (d.catalog.apply r).2.changed := by
  rw [changesNext, waiting, h]
  rfl

theorem event?_ne_success
    (h : d'.counters.checkpointsWritten = d.counters.checkpointsWritten) :
    d.event? clock d' ≠ some .success := by
  simp only [event?, h, Nat.lt_irrefl, if_false]
  split
  · simp
  · split
    · split
      · simp
      · simp
    · split
      · simp
      · simp

/-- Without a change the catalog stays as it is. -/
theorem Turn.catalog_eq (h : Turn clock disk d d' disk') (hsound : d.catalog.Sound)
    (hevent : d.event? clock d' ≠ some .change) : d'.catalog = d.catalog := by
  have hquiet : ∀ {r : Request} {rest : List Message}, d.queue = .write r :: rest →
      d'.counters = d.counters.dequeued.applied (d.catalog.apply r).2 →
      (d.catalog.apply r).1 = d.catalog := by
    intro r rest hqueue hcounters
    refine Catalog.apply_eq_self hsound (Bool.eq_false_iff.mpr ?_)
    intro hchanged
    refine hevent ?_
    rw [event?_of_applied hcounters, changesNext_of_queue hqueue, if_pos hchanged]
  cases h with
  | takeWrite _ _ _ _ _ hqueue => exact hquiet hqueue rfl
  | drainWrite _ _ _ hqueue => exact hquiet hqueue rfl
  | _ => rfl

/-- A checkpoint all of whose effects are done is counted as written. -/
theorem Turn.event?_of_done (h : Turn clock disk d d' disk') (hdone : d.pending? = some []) :
    d.event? clock d' = some .success := by
  cases h with
  | saved | finished => exact event?_of_written rfl
  | takeWrite _ _ _ _ htakes | takeFlush _ _ _ _ htakes | takeShutdown _ _ _ htakes =>
    cases (pending?_of_takes htakes).symm.trans hdone
  | skipSave hphase | beginSave _ _ hphase | refuseSave _ _ hphase | close hphase
  | endQuietly _ _ hphase | endArmed _ _ hphase | die _ _ hphase | saveEffect _ _ _ hphase
  | saveFault _ _ _ _ hphase | drainWrite _ _ hphase | drainFlush _ _ hphase
  | drainShutdown _ hphase | exitInMemory hphase | beginFinish _ _ hphase
  | refuseFinish _ _ hphase | finishEffect _ _ _ hphase | finishFault _ _ _ _ hphase =>
    cases (pending?_of_phase hphase).symm.trans hdone

end Depot

-- ── The event of an action ──────────────────────────────────────────────────

namespace Site

open Depot

theorem event?_of_ne {s : Site} {a : Action} (h : a ≠ .work) : s.event? a = none := by
  cases a with
  | work => exact absurd rfl h
  | _ => rfl

/-- A writer that rests makes no event. -/
theorem event?_of_rest {s : Site} (h : s.depot.step s.clock s.disk = none) : s.event? .work = none := by
  have hsame : s.perform .work = s := by simp only [perform, h]
  rw [event?, hsame]
  simp only [Depot.event?, Nat.lt_irrefl, if_false]
  cases s.depot.phase <;> rfl

/-- What an action comes to, with its event. -/
inductive Witnessed (s : Site) (a : Action) : Site → Prop where
  | turn (depot : Depot) (disk : Disk) (hturn : Turn s.clock s.disk s.depot depot disk)
      (hevent : s.event? a = s.depot.event? s.clock depot) :
      Witnessed s a { s with depot, disk }
  | aside (s' : Site) (hevent : s.event? a = none) (hphase : s'.depot.phase = s.depot.phase)
      (hdeadline : s'.depot.deadline = s.depot.deadline)
      (hcatalog : s'.depot.catalog = s.depot.catalog)
      (hdisk : s'.disk = s.disk ∨ a = .outside s'.disk) : Witnessed s a s'

/-- **Events are made by turns.** Whoever is not the writer makes no event, and leaves alone
    phase, deadline and catalog. -/
theorem witnessed (s : Site) (a : Action) : Witnessed s a (s.perform a) := by
  have hhappens := happens s a
  generalize hs' : s.perform a = s' at hhappens
  cases hhappens with
  | send messages depot ha hsent =>
    exact .aside _ (event?_of_ne ha) hsent.phase hsent.deadline hsent.catalog (Or.inl rfl)
  | turn depot disk ha hturn =>
    refine .turn depot disk hturn ?_
    rw [ha, event?, ← ha, hs']
  | rest ha hrests =>
    subst ha
    exact .aside s (event?_of_rest hrests) rfl rfl rfl (Or.inl rfl)
  | pass millis ha =>
    subst ha
    exact .aside _ rfl rfl rfl rfl (Or.inl rfl)
  | outside disk ha =>
    subst ha
    exact .aside _ rfl rfl rfl rfl (Or.inr rfl)

end Site

end MetricDepot
