import Mathlib.Data.List.Induction
import MetricDepot.Proofs.Checkpoint.Staging
import MetricDepot.Proofs.Depot.Order
/-!
# Durability — what the file of a depot holds at every moment

    The writer puts a checkpoint beside the file and moves it there, one effect at a time,
    and at every moment between two effects somebody may stop the program and look at the
    file.  It is as it was when the depot was opened, or holds the checkpoint of the catalog
    after some of the applied requests, and these are the first ones.

    How many they are is a note made when the file is moved: `saved` is the last such note
    of a run, and `counted` the number of requests that were applied when a checkpoint was
    last counted as written.  What others do to the disk must leave the file and its staging
    file alone, `Undisturbed`; that effects fail, wholly or in part, is no disturbance.
-/

namespace MetricDepot

open FileSystem Checkpoint

deriving instance DecidableEq for Phase

/-- The effects still to do, while a checkpoint is under way. -/
def Phase.pending? : Phase → Option (List Effect)
  | saving pending => some pending
  | finishing pending => some pending
  | _ => none

namespace Depot

/-- The effects still to do, while a checkpoint is under way. -/
def pending? (d : Depot) : Option (List Effect) := d.phase.pending?

-- ── What a turn does to the file ────────────────────────────────────────────

/-- What a step of the writer may do to the disk, and to the checkpoint under way. -/
inductive Storage (disk : Disk) (d d' : Depot) : Disk → Prop where
  | aside (hbefore : d.pending? = none) (hafter : d'.pending? = none)
      (hcounted : d'.counters.checkpointsWritten = d.counters.checkpointsWritten) :
      Storage disk d d' disk
  | begin (target : Target) (bytes : Bytes) (hbefore : d.pending? = none)
      (hafter : d'.pending? = some (replacement target.file bytes))
      (htarget : d.target = some target) (hbytes : encode d'.catalog = .ok bytes)
      (hcounted : d'.counters.checkpointsWritten = d.counters.checkpointsWritten) :
      Storage disk d d' disk
  | effect (e : Effect) (rest : List Effect) (after : Disk) (hbefore : d.pending? = some (e :: rest))
      (hafter : d'.pending? = some rest) (heffect : disk.perform e = (after, .ok ()))
      (hcatalog : d'.catalog = d.catalog) (happlied : d'.applied = d.applied)
      (hcounted : d'.counters.checkpointsWritten = d.counters.checkpointsWritten) :
      Storage disk d d' after
  | fault (e : Effect) (rest : List Effect) (after : Disk) (reason : IoError)
      (hbefore : d.pending? = some (e :: rest)) (hafter : d'.pending? = none)
      (heffect : disk.perform e = (after, .error reason))
      (hcounted : d'.counters.checkpointsWritten = d.counters.checkpointsWritten) :
      Storage disk d d' after
  | finish (hbefore : d.pending? = some []) (hafter : d'.pending? = none) : Storage disk d d' disk

variable {clock : Clock} {disk disk' : Disk} {d d' : Depot}

theorem pending?_of_phase {phase : Phase} (h : d.phase = phase) : d.pending? = phase.pending? :=
  congrArg Phase.pending? h

theorem pending?_of_takes {handled : Nat} {changed : Bool} (h : Takes clock d handled changed) :
    d.pending? = none := by
  rcases h with ⟨hphase, -⟩ | ⟨hphase, -⟩
  · exact pending?_of_phase hphase
  · exact pending?_of_phase hphase

/-- A writer that waits has no checkpoint under way. -/
theorem pending?_of_step_none (h : d.step clock disk = none) : d.pending? = none := by
  cases hphase : d.phase with
  | saving pending | finishing pending =>
    rw [step, hphase] at h
    cases h
  | _ => exact pending?_of_phase hphase

/-- Checkpoints always go to the same file. -/
theorem Turn.target (h : Turn clock disk d d' disk') : d'.target = d.target := by
  cases h <;> rfl

theorem Turn.storage (h : Turn clock disk d d' disk') : Storage disk d d' disk' := by
  cases h with
  | takeWrite _ _ _ _ htakes | takeFlush _ _ _ _ htakes | takeShutdown _ _ _ htakes =>
    exact .aside (pending?_of_takes htakes) rfl rfl
  | refuseSave _ _ hphase | close hphase | endQuietly _ _ hphase | endArmed _ _ hphase
  | die _ _ hphase | exitInMemory hphase | refuseFinish _ _ hphase =>
    exact .aside (pending?_of_phase hphase) rfl rfl
  | skipSave hphase | drainWrite _ _ hphase | drainFlush _ _ hphase | drainShutdown _ hphase =>
    exact .aside (pending?_of_phase hphase) (pending?_of_phase hphase) rfl
  | beginSave target bytes hphase _ htarget hbytes =>
    exact .begin target bytes (pending?_of_phase hphase) rfl htarget hbytes rfl
  | beginFinish target bytes hphase _ htarget hbytes =>
    exact .begin target bytes (pending?_of_phase hphase) rfl htarget hbytes rfl
  | saveEffect e rest after hphase heffect | finishEffect e rest after hphase heffect =>
    exact .effect e rest _ (pending?_of_phase hphase) rfl heffect rfl rfl rfl
  | saveFault e rest after reason hphase heffect | finishFault e rest after reason hphase heffect =>
    exact .fault e rest _ reason (pending?_of_phase hphase) rfl heffect rfl
  | saved hphase | finished hphase => exact .finish (pending?_of_phase hphase) rfl

end Depot

namespace Site

open Depot

-- ── Notes made in a run ─────────────────────────────────────────────────────

/-- The last note that is made in a run. -/
def noted (note : Site → Action → Option Nat) : Site → List Action → Option Nat
  | _, [] => none
  | s, a :: rest => (noted note (s.perform a) rest).or (note s a)

/-- The number of applied requests, when the writer moves the staging file to its place. -/
def moves? (s : Site) : Action → Option Nat
  | .work =>
      match s.depot.pending? with
      | some (.rename source target :: _) =>
          if (s.disk.perform (.rename source target)).2.isOk then some s.depot.applied else none
      | _ => none
  | _ => none

/-- The number of applied requests, when the writer counts a checkpoint as written. -/
def counts? (s : Site) (a : Action) : Option Nat :=
  if s.depot.counters.checkpointsWritten < (s.perform a).depot.counters.checkpointsWritten then
    some s.depot.applied
  else none

/-- How many of the applied requests are in the file, if it was ever moved in a run. -/
def saved : Site → List Action → Option Nat := noted moves?

/-- How many requests had been applied when a checkpoint was last counted as written. -/
def counted : Site → List Action → Option Nat := noted counts?

/-- What leaves the file alone, and the staging file while the writer needs it. -/
structure LeavesAlone (file : String) (s : Site) (files : FileSystem) : Prop where
  untouched : Untouched file s.disk.files files
  staging : s.depot.pending? ≠ none →
    files.content? (stagingOf file) = s.disk.files.content? (stagingOf file)

/-- Nobody but the writer touches the file or its staging file in a run. -/
def Undisturbed (file : String) : Site → List Action → Prop
  | _, [] => True
  | s, a :: rest =>
      (∀ disk, a = .outside disk → LeavesAlone file s disk.files) ∧
        Undisturbed file (s.perform a) rest

theorem noted_append (note : Site → Action → Option Nat) (s : Site) (run more : List Action) :
    noted note s (run ++ more) = (noted note (s.after run) more).or (noted note s run) := by
  induction run generalizing s with
  | nil => exact (Option.or_none).symm
  | cons a run ih =>
    show (noted note (s.perform a) (run ++ more)).or (note s a) = _
    rw [ih, Option.or_assoc]
    rfl

theorem noted_concat (note : Site → Action → Option Nat) (s : Site) (run : List Action)
    (a : Action) : noted note s (run ++ [a]) = (note (s.after run) a).or (noted note s run) :=
  noted_append note s run [a]

theorem undisturbed_append {file : String} {s : Site} {run more : List Action} :
    Undisturbed file s (run ++ more) ↔
      Undisturbed file s run ∧ Undisturbed file (s.after run) more := by
  induction run generalizing s with
  | nil => exact ⟨fun h => ⟨trivial, h⟩, fun h => h.2⟩
  | cons a run ih =>
    constructor
    · rintro ⟨ha, hrest⟩
      obtain ⟨hrun, hmore⟩ := ih.mp hrest
      exact ⟨⟨ha, hrun⟩, hmore⟩
    · rintro ⟨⟨ha, hrun⟩, hmore⟩
      exact ⟨ha, ih.mpr ⟨hrun, hmore⟩⟩

theorem eq_applied_of_moves? {s : Site} {a : Action} {k : Nat} (h : s.moves? a = some k) :
    k = s.depot.applied := by
  unfold moves? at h
  split at h
  · split at h
    · split at h
      · exact (Option.some.inj h).symm
      · cases h
    · cases h
  · cases h

/-- What is noted when the file is moved lies between the requests applied before the run and
    those applied in it. -/
theorem applied_le_saved {s : Site} {run : List Action} {k : Nat} (h : s.saved run = some k) :
    s.depot.applied ≤ k := by
  induction run generalizing s with
  | nil => cases h
  | cons a run ih =>
    rcases Option.or_eq_some_iff.mp h with hlater | ⟨-, hnow⟩
    · exact Nat.le_trans (applied_le_of_happens (happens s a)) (ih hlater)
    · exact Nat.le_of_eq (eq_applied_of_moves? hnow).symm

-- ── The invariant ───────────────────────────────────────────────────────────

/-- The file is as it was opened, or holds the catalog after the first `saved` requests. -/
structure Held (initial : FileSystem) (start : Catalog) (file : String) (requests : List Request)
    (saved : Option Nat) (s : Site) : Prop where
  untouched : saved = none → Untouched file initial s.disk.files
  checkpoint : ∀ k, saved = some k → k ≤ s.depot.applied ∧
    ∃ bytes, encode (start.applyAll (requests.take k)) = .ok bytes ∧
      s.disk.files.read file = .ok bytes

/-- Besides, a checkpoint under way is that of the catalog, and when all its effects are done
    it is in the file. -/
structure Durable (initial : FileSystem) (start : Catalog) (target : Target)
    (requests : List Request) (saved counted : Option Nat) (s : Site) : Prop where
  configured : s.depot.target = some target
  held : Held initial start target.file requests saved s
  staged : ∀ pending, s.depot.pending? = some pending →
    ∃ bytes, encode s.depot.catalog = .ok bytes ∧
      Staged target.file bytes s.disk.files pending ∧ (pending = [] → saved = some s.depot.applied)
  counted : ∀ k, counted = some k → ∃ m, saved = some m ∧ k ≤ m

variable {initial : FileSystem} {start : Catalog} {target : Target} {requests arrived : List Request}
  {saved counted : Option Nat} {s s' : Site}

/-- While the file is untouched it holds what it held. -/
theorem Held.keep {file : String} (h : Held initial start file requests saved s)
    (hwithin : s.depot.applied ≤ requests.length) (happlied : s.depot.applied ≤ s'.depot.applied)
    (hfile : Untouched file s.disk.files s'.disk.files) (harrived : requests <+: arrived) :
    Held initial start file arrived saved s' := by
  obtain ⟨arriving, rfl⟩ := harrived
  refine ⟨?_, ?_⟩
  · intro hnone
    exact (h.untouched hnone).trans hfile
  · intro k hk
    obtain ⟨hle, bytes, hbytes, hread⟩ := h.checkpoint k hk
    refine ⟨Nat.le_trans hle happlied, bytes, ?_, hfile.read bytes hread⟩
    rw [List.take_append_of_le_length (Nat.le_trans hle hwithin)]
    exact hbytes

/-- A move puts the catalog of the moment into the file. -/
theorem Held.move {file : String} {bytes : Bytes}
    (hcatalog : s.depot.catalog = start.applyAll (requests.take s.depot.applied))
    (hbytes : encode s.depot.catalog = .ok bytes) (hread : s.disk.files.read file = .ok bytes) :
    Held initial start file requests (some s.depot.applied) s := by
  refine ⟨?_, ?_⟩
  · intro hnone
    cases hnone
  · intro k hk
    obtain rfl := Option.some.inj hk
    exact ⟨Nat.le_refl _, bytes, hcatalog ▸ hbytes, hread⟩

/-- Whoever is not the writer changes nothing in the file. -/
theorem Durable.rest (h : Durable initial start target requests saved counted s)
    (horder : InOrder start requests s.depot) (harrived : requests <+: arrived)
    (htarget : s'.depot.target = s.depot.target) (hphase : s'.depot.phase = s.depot.phase)
    (hcatalog : s'.depot.catalog = s.depot.catalog) (happlied : s'.depot.applied = s.depot.applied)
    (hfiles : LeavesAlone target.file s s'.disk.files) :
    Durable initial start target arrived saved counted s' := by
  refine ⟨htarget.trans h.configured, ?_, ?_, h.counted⟩
  · exact h.held.keep horder.within (Nat.le_of_eq happlied.symm) hfiles.untouched harrived
  · intro pending hpending
    have hpending : s.depot.pending? = some pending := by
      rw [pending?, ← hphase]
      exact hpending
    have hunderway : s.depot.pending? ≠ none := by
      rw [hpending]
      exact Option.some_ne_none pending
    obtain ⟨bytes, hbytes, hstaged, hdone⟩ := h.staged pending hpending
    refine ⟨bytes, ?_, hstaged.undisturbed hfiles.untouched (hfiles.staging hunderway), ?_⟩
    · rw [hcatalog]
      exact hbytes
    · rw [happlied]
      exact hdone

-- ── What the writer keeps ───────────────────────────────────────────────────

/-- Between checkpoints the writer leaves the file alone. -/
theorem Durable.aside (h : Durable initial start target requests saved counted s)
    (htarget : s'.depot.target = s.depot.target) (hafter : s'.depot.pending? = none)
    (hheld : Held initial start target.file requests saved s') :
    Durable initial start target requests saved counted s' := by
  refine ⟨htarget.trans h.configured, hheld, ?_, h.counted⟩
  intro pending hpending
  cases hafter.symm.trans hpending

/-- A checkpoint begins with the catalog of the moment. -/
theorem Durable.begin {aim : Target} {bytes : Bytes}
    (h : Durable initial start target requests saved counted s)
    (htarget : s'.depot.target = s.depot.target) (haim : s.depot.target = some aim)
    (hafter : s'.depot.pending? = some (replacement aim.file bytes))
    (hbytes : encode s'.depot.catalog = .ok bytes)
    (hheld : Held initial start target.file requests saved s') :
    Durable initial start target requests saved counted s' := by
  refine ⟨htarget.trans h.configured, hheld, ?_, h.counted⟩
  intro pending hpending
  obtain rfl := Option.some.inj (haim.symm.trans h.configured)
  obtain rfl := Option.some.inj (hafter.symm.trans hpending)
  refine ⟨bytes, hbytes, staged_replacement aim.file bytes _, ?_⟩
  intro hnil
  exact absurd hnil (replacement_ne_nil aim.file bytes)

/-- An effect before the last prepares the move, and the last is the move. -/
theorem Durable.effect {e : Effect} {rest : List Effect}
    (h : Durable initial start target requests saved counted s)
    (horder : InOrder start requests s.depot) (htarget : s'.depot.target = s.depot.target)
    (hbefore : s.depot.pending? = some (e :: rest)) (hafter : s'.depot.pending? = some rest)
    (heffect : s.disk.perform e = (s'.disk, .ok ())) (hcatalog : s'.depot.catalog = s.depot.catalog)
    (happlied : s'.depot.applied = s.depot.applied) :
    Durable initial start target requests (if rest = [] then some s.depot.applied else saved) counted
      s' := by
  obtain ⟨bytes, hbytes, hstaged, -⟩ := h.staged _ hbefore
  rw [← hcatalog] at hbytes
  have hstaged' := hstaged.advance heffect
  by_cases hrest : rest = []
  · -- the move: from now on the file holds the catalog of this moment
    rw [if_pos hrest, ← happlied]
    subst hrest
    cases hstaged' with
    | done hread =>
      have horder' : s'.depot.catalog = start.applyAll (requests.take s'.depot.applied) := by
        rw [hcatalog, happlied, horder.catalog]
      refine ⟨htarget.trans h.configured, .move horder' hbytes hread, ?_, ?_⟩
      · intro pending hpending
        obtain rfl := Option.some.inj (hafter.symm.trans hpending)
        exact ⟨bytes, hbytes, .done hread, fun _ => rfl⟩
      · intro k hk
        obtain ⟨m, hm, hle⟩ := h.counted k hk
        exact ⟨_, rfl, Nat.le_trans hle (happlied ▸ (h.held.checkpoint m hm).1)⟩
  · rw [if_neg hrest]
    have hfile := hstaged.untouched hrest
    rw [heffect] at hfile
    have hheld := h.held.keep horder.within (Nat.le_of_eq happlied.symm) hfile List.prefix_rfl
    refine ⟨htarget.trans h.configured, hheld, ?_, h.counted⟩
    intro pending hpending
    obtain rfl := Option.some.inj (hafter.symm.trans hpending)
    exact ⟨bytes, hbytes, hstaged', fun hnil => absurd hnil hrest⟩

/-- A checkpoint is counted after it was moved, and nothing has been applied since. -/
theorem Durable.finish {note : Option Nat} (h : Durable initial start target requests saved counted s)
    (htarget : s'.depot.target = s.depot.target) (hbefore : s.depot.pending? = some [])
    (hafter : s'.depot.pending? = none) (hheld : Held initial start target.file requests saved s')
    (hnote : ∀ k, note = some k → k = s.depot.applied) :
    Durable initial start target requests saved (note.or counted) s' := by
  obtain ⟨-, -, -, hdone⟩ := h.staged _ hbefore
  refine ⟨htarget.trans h.configured, hheld, ?_, ?_⟩
  · intro pending hpending
    cases hafter.symm.trans hpending
  · intro k hk
    rcases Option.or_eq_some_iff.mp hk with hnow | ⟨-, hearlier⟩
    · exact ⟨s.depot.applied, hdone rfl, Nat.le_of_eq (hnote k hnow)⟩
    · exact h.counted k hearlier

-- ── What is noted when ──────────────────────────────────────────────────────

theorem moves?_of_ne {a : Action} (h : a ≠ .work) : s.moves? a = none := by
  cases a with
  | work => exact absurd rfl h
  | _ => rfl

theorem moves?_of_pending {pending : Option (List Effect)} (h : s.depot.pending? = pending)
    (hnothing : pending = none ∨ pending = some []) : s.moves? .work = none := by
  rcases hnothing with rfl | rfl
  · rw [moves?, h]
  · rw [moves?, h]

/-- A replacement at its last effect is about to move the file, and at no other. -/
theorem moves?_of_effect {after : Disk} {bytes : Bytes} {fs : FileSystem} {e : Effect}
    {rest : List Effect} (hstaged : Staged target.file bytes fs (e :: rest))
    (hpending : s.depot.pending? = some (e :: rest)) (heffect : s.disk.perform e = (after, .ok ())) :
    s.moves? .work = if rest = [] then some s.depot.applied else none := by
  unfold moves?
  rw [hpending]
  cases hstaged with
  | rename =>
    dsimp only
    rw [heffect]
    rfl
  | directories | create | append | sync => rfl

theorem moves?_of_fault {after : Disk} {reason : IoError} {e : Effect} {rest : List Effect}
    (hpending : s.depot.pending? = some (e :: rest))
    (heffect : s.disk.perform e = (after, .error reason)) : s.moves? .work = none := by
  unfold moves?
  rw [hpending]
  cases e with
  | rename source target =>
    dsimp only
    rw [heffect]
    rfl
  | makeDirectories | create | append | sync => rfl

theorem counts?_of_eq {a : Action} (h : (s.perform a).depot.counters.checkpointsWritten
    = s.depot.counters.checkpointsWritten) : s.counts? a = none := by
  rw [counts?, h, if_neg (Nat.lt_irrefl _)]

theorem eq_applied_of_counts? {a : Action} {k : Nat} (h : s.counts? a = some k) :
    k = s.depot.applied := by
  rw [counts?] at h
  split at h
  · exact (Option.some.inj h).symm
  · cases h

/-- What the writer does keeps the file a checkpoint of the first requests. -/
theorem Durable.turn (h : Durable initial start target requests saved counted s)
    (hperform : s.perform .work = s') (horder : InOrder start requests s.depot)
    (happlied : s.depot.applied ≤ s'.depot.applied) (htarget : s'.depot.target = s.depot.target)
    (hstorage : Storage s.disk s.depot s'.depot s'.disk) :
    Durable initial start target requests ((s.moves? .work).or saved)
      ((s.counts? .work).or counted) s' := by
  subst hperform
  generalize hdisk : (s.perform .work).disk = disk at hstorage
  have hkeep : Untouched target.file s.disk.files disk.files →
      Held initial start target.file requests saved (s.perform .work) := by
    intro hfile
    exact h.held.keep horder.within happlied (hdisk ▸ hfile) List.prefix_rfl
  cases hstorage with
  | aside hbefore hafter hcounted =>
    rw [moves?_of_pending hbefore (Or.inl rfl), counts?_of_eq hcounted]
    exact h.aside htarget hafter (hkeep (.refl _ _))
  | begin aim bytes hbefore hafter haim hbytes hcounted =>
    rw [moves?_of_pending hbefore (Or.inl rfl), counts?_of_eq hcounted]
    exact h.begin htarget haim hafter hbytes (hkeep (.refl _ _))
  | effect e rest _ hbefore hafter heffect hcatalog happlied' hcounted =>
    obtain ⟨bytes, -, hstaged, -⟩ := h.staged _ hbefore
    have hsaved : (s.moves? .work).or saved = if rest = [] then some s.depot.applied else saved := by
      rw [moves?_of_effect hstaged hbefore heffect]
      split
      · rfl
      · rfl
    rw [hsaved, counts?_of_eq hcounted]
    exact h.effect horder htarget hbefore hafter (hdisk ▸ heffect) hcatalog happlied'
  | fault e rest _ reason hbefore hafter heffect hcounted =>
    obtain ⟨bytes, -, hstaged, -⟩ := h.staged _ hbefore
    rw [moves?_of_fault hbefore heffect, counts?_of_eq hcounted]
    exact h.aside htarget hafter (hkeep (hstaged.fault heffect))
  | finish hbefore hafter =>
    rw [moves?_of_pending hbefore (Or.inr rfl)]
    exact h.finish htarget hbefore hafter (hkeep (.refl _ _)) fun _ => eq_applied_of_counts?

-- ── Along a run ─────────────────────────────────────────────────────────────

/-- Checkpoints go to the same file all along a run. -/
theorem target_after (s : Site) (run : List Action) : (s.after run).depot.target = s.depot.target := by
  induction run generalizing s with
  | nil => rfl
  | cons a run ih =>
    refine (ih (s.perform a)).trans ?_
    have hhappens := happens s a
    generalize s.perform a = s' at hhappens
    cases hhappens with
    | send messages depot _ hsent => exact hsent.target
    | turn depot disk _ hturn => exact hturn.target
    | rest | pass | outside => rfl

theorem start_durable (start : Catalog) (target : Target) (clock : Clock) (disk : Disk) :
    Durable disk.files start target [] none none (Site.opened start (some target) clock disk) := by
  refine ⟨rfl, ⟨fun _ => .refl _ _, ?_⟩, ?_, ?_⟩
  · intro k hk
    cases hk
  · intro pending hpending
    cases hpending
  · intro k hk
    cases hk

/-- Whatever happens undisturbed, the file stays a checkpoint of the first requests. -/
theorem Durable.perform {a : Action} (h : Durable initial start target requests saved counted s)
    (horder : InOrder start requests s.depot)
    (halone : ∀ disk, a = .outside disk → LeavesAlone target.file s disk.files) :
    Durable initial start target (requests ++ (s.accepts? a).toList) ((s.moves? a).or saved)
      ((s.counts? a).or counted) (s.perform a) := by
  have hhappens := happens s a
  have happlied := applied_le_of_happens hhappens
  generalize hs' : s.perform a = s' at hhappens happlied
  have hpassive : s'.depot.counters.checkpointsWritten = s.depot.counters.checkpointsWritten →
      s.counts? a = none := by
    intro hcounted
    exact counts?_of_eq (hs' ▸ hcounted)
  cases hhappens with
  | send messages depot ha hsent haccepts =>
    have hcounters : depot.counters.checkpointsWritten = s.depot.counters.checkpointsWritten := by
      rw [hsent.counters]
    have happlied : depot.applied = s.depot.applied := by
      rw [applied, applied, hsent.counters]
    rw [moves?_of_ne ha, hpassive hcounters]
    exact h.rest horder (List.prefix_append _ _) hsent.target hsent.phase hsent.catalog happlied
      ⟨.refl _ _, fun _ => rfl⟩
  | turn depot disk ha hturn =>
    subst ha
    have hnone : (s.accepts? .work).toList = [] := rfl
    rw [hnone, List.append_nil]
    exact h.turn hs' horder happlied hturn.target hturn.storage
  | rest ha hrests =>
    subst ha
    rw [moves?_of_pending (pending?_of_step_none hrests) (Or.inl rfl), hpassive rfl]
    exact h.rest horder (List.prefix_append _ _) rfl rfl rfl rfl ⟨.refl _ _, fun _ => rfl⟩
  | pass millis ha =>
    subst ha
    rw [hpassive rfl]
    exact h.rest horder (List.prefix_append _ _) rfl rfl rfl rfl ⟨.refl _ _, fun _ => rfl⟩
  | outside disk ha =>
    subst ha
    rw [hpassive rfl]
    exact h.rest horder (List.prefix_append _ _) rfl rfl rfl rfl (halone disk rfl)

/-- The file is a checkpoint of the first requests at every moment of an undisturbed run. -/
theorem durable_after (start : Catalog) (target : Target) (clock : Clock) (disk : Disk)
    (run : List Action)
    (hrun : Undisturbed target.file (Site.opened start (some target) clock disk) run) :
    Durable disk.files start target ((Site.opened start (some target) clock disk).accepted run)
      ((Site.opened start (some target) clock disk).saved run)
      ((Site.opened start (some target) clock disk).counted run)
      ((Site.opened start (some target) clock disk).after run) := by
  induction run using List.reverseRecOn with
  | nil => exact start_durable start target clock disk
  | append_singleton run a ih =>
    obtain ⟨hbefore, halone, -⟩ := undisturbed_append.mp hrun
    rw [after_append, accepted_append]
    rw [show accepted _ [a] = _ from List.append_nil _]
    rw [Site.saved, Site.counted, noted_concat, noted_concat]
    exact (ih hbefore).perform (inOrder_after start (some target) clock disk run) halone

/-- **The file survives every moment.** However a run of a depot with a file goes, whichever
    effects fail on the way, and wherever it is stopped, also between two effects of one
    checkpoint: as long as nobody else touches the file or its staging file, the file is as it
    was opened until it is first moved, and from then on holds the checkpoint of the catalog
    after the first `saved` of the applied requests.  This number never falls, and reaches
    that of the requests applied before the last checkpoint that is counted as written. -/
theorem file_of_run (start : Catalog) (target : Target) (clock : Clock) (disk : Disk)
    (run more : List Action)
    (hrun : Undisturbed target.file (opened start (some target) clock disk) (run ++ more)) :
    let s := opened start (some target) clock disk
    (s.saved run = none → Untouched target.file disk.files (s.after run).disk.files) ∧
      (∀ k, s.saved run = some k → k ≤ (s.after run).depot.applied ∧
        ∃ bytes, encode (start.applyAll ((s.accepted run).take k)) = .ok bytes ∧
          (s.after run).disk.files.read target.file = .ok bytes) ∧
      (∀ k, s.saved run = some k → ∃ m, s.saved (run ++ more) = some m ∧ k ≤ m) ∧
      (∀ k, s.counted run = some k → ∃ m, s.saved run = some m ∧ k ≤ m) := by
  intro s
  have hnow := durable_after start target clock disk run (undisturbed_append.mp hrun).1
  refine ⟨hnow.held.untouched, hnow.held.checkpoint, ?_, hnow.counted⟩
  intro k hk
  have hlast : s.saved (run ++ more) = ((s.after run).saved more).or (s.saved run) :=
    noted_append moves? s run more
  rw [hlast]
  cases hmore : (s.after run).saved more with
  | none => exact ⟨k, hk, Nat.le_refl k⟩
  | some m =>
    -- a later move notes at least what had been applied before it
    exact ⟨m, rfl, Nat.le_trans (hnow.held.checkpoint k hk).1 (applied_le_saved hmore)⟩

/-- An empty depot with a file, on an empty disk. -/
def newest : Site := opened .empty (some ⟨"depot.ckpt", 0⟩) ⟨0, 0⟩ (.sound .empty)

/-- A request is applied, the last handle goes, and the last checkpoint is written. -/
def lastHandle : List Action :=
  [.submit (.delete ⟨"job", ""⟩ .epoch), .drop, .work, .work, .work, .work, .work, .work, .work, .work]

theorem file_after_lastHandle :
    Undisturbed "depot.ckpt" newest (lastHandle ++ []) ∧ newest.saved lastHandle = some 1 ∧
      ∃ bytes, encode (Catalog.empty.applyAll ((newest.accepted lastHandle).take 1)) = .ok bytes ∧
        (newest.after lastHandle).disk.files.read "depot.ckpt" = .ok bytes := by
  have hrun : Undisturbed "depot.ckpt" newest (lastHandle ++ []) := by
    simp [lastHandle, Undisturbed]
  have hsaved : newest.saved lastHandle = some 1 := by decide +kernel
  have hfile := file_of_run .empty ⟨"depot.ckpt", 0⟩ ⟨0, 0⟩ (.sound .empty) lastHandle [] hrun
  exact ⟨hrun, hsaved, (hfile.2.1 1 hsaved).2⟩

end Site

end MetricDepot
