import MetricDepot.Proofs.Depot.Batches
import MetricDepot.Proofs.Depot.Durable
import MetricDepot.Proofs.Depot.Holders
/-!
# Closing — how the life of a depot ends

    The writer leaves when a holder has given the word to stop, or when the last handle is
    gone.  Then it closes the queue, applies what is still in it, and writes a last
    checkpoint, whether or not anything has changed.

    Proved here, of every run:

    * once the word is given, or the last handle gone, the writer gets to its end
      (`over_after_works`), and it leaves for no other reason (`Orderly.cause`);
    * unless it died, it has applied everything that the queue took (`applied_of_drained`),
      and has put the checkpoint of the final catalog into the file (`kept_of_exited`) or
      left the file as it was before the last attempt (`attempted_of_unwritten`);
    * it dies only at a time to which the interval cannot be added (`limit_le_of_killed`).
-/

namespace MetricDepot

open FileSystem Checkpoint

namespace Depot

variable {clock : Clock} {disk disk' : Disk} {d d' : Depot}

-- ── The word to stop ────────────────────────────────────────────────────────

/-- The word to stop is on its way to the writer as long as it has not arrived, the writer
    leaves only for a reason, and it leaves nothing behind in the queue. -/
structure Orderly (d : Depot) : Prop where
  underway : d.stopping = true → .shutdown ∈ d.queue ∨ d.isClosed = true
  given : .shutdown ∈ d.queue → d.stopping = true
  cause : d.isClosed = true → d.stopping = true ∨ d.handles = 0 ∨ d.phase = .killed
  emptied : d.isClosed = true → d.phase ≠ .draining → d.queue = []

theorem isClosed_of_takes {handled : Nat} {changed : Bool} (h : Takes clock d handled changed) :
    d.isClosed = false := by
  rcases h with ⟨hphase, -⟩ | ⟨hphase, -⟩
  · rw [isClosed, hphase]
  · rw [isClosed, hphase]

theorem isClosed_of_drained (h : d.isDrained = true) : d.isClosed = true := by
  rw [isDrained] at h
  rw [isClosed]
  split at h
  next hphase => rw [hphase]
  next hphase => rw [hphase]
  next => cases h

theorem isClosed_congr (h : d'.phase = d.phase) : d'.isClosed = d.isClosed := by
  rw [isClosed, isClosed, h]

/-- What the writer does behind a closed queue: it drains, or ends the drain, or writes the
    last checkpoint, which leaves the catalog alone. -/
theorem Turn.of_closed (h : Turn clock disk d d' disk') (hclosed : d.isClosed = true) :
    (d.phase = .draining ∧ (d'.phase = .draining ∨ d'.isDrained = true)) ∨
      (d.isDrained = true ∧ d'.isDrained = true ∧ d'.catalog = d.catalog) := by
  cases h with
  | takeWrite _ _ _ _ htakes | takeFlush _ _ _ _ htakes | takeShutdown _ _ _ htakes =>
    cases (isClosed_of_takes htakes).symm.trans hclosed
  | skipSave hphase | beginSave _ _ hphase | refuseSave _ _ hphase | close hphase
  | endQuietly _ _ hphase | endArmed _ _ hphase | die _ _ hphase | saved hphase
  | saveEffect _ _ _ hphase | saveFault _ _ _ _ hphase =>
    rw [isClosed, hphase] at hclosed
    cases hclosed
  | drainWrite _ _ hphase | drainFlush _ _ hphase | drainShutdown _ hphase =>
    exact Or.inl ⟨hphase, Or.inl hphase⟩
  | exitInMemory hphase | beginFinish _ _ hphase | refuseFinish _ _ hphase =>
    exact Or.inl ⟨hphase, Or.inr rfl⟩
  | finished hphase | finishEffect _ _ _ hphase | finishFault _ _ _ _ hphase =>
    refine Or.inr ⟨?_, rfl, rfl⟩
    rw [isDrained, hphase]

/-- A closed queue is not opened again. -/
theorem Turn.closed (h : Turn clock disk d d' disk') (hclosed : d.isClosed = true) :
    d'.isClosed = true := by
  rcases h.of_closed hclosed with ⟨-, hdraining | hdrained⟩ | ⟨-, hdrained, -⟩
  · rw [isClosed, hdraining]
  · exact isClosed_of_drained hdrained
  · exact isClosed_of_drained hdrained

namespace Orderly

theorem start (catalog : Catalog) (target : Option Target) : Orderly (.start catalog target) where
  underway h := nomatch h
  given h := nomatch h
  cause h := nomatch h
  emptied h := nomatch h

theorem tell {messages : List Message} (h : Orderly d) (htells : Tells messages d d') : Orderly d' := by
  have hclosed := isClosed_congr htells.phase
  refine ⟨?_, ?_, ?_, ?_⟩
  · intro hstopping
    rw [htells.queue, hclosed, List.mem_append]
    rcases htells.noted hstopping with hbefore | hword | hlate
    · exact (h.underway hbefore).imp_left Or.inl
    · exact Or.inl (Or.inr hword)
    · exact Or.inr hlate
  · intro hmem
    rw [htells.queue, List.mem_append] at hmem
    rcases hmem with hbefore | hword
    · exact htells.keeps (h.given hbefore)
    · exact htells.word hword
  · intro hafter
    rw [htells.phase]
    exact (h.cause (hclosed ▸ hafter)).imp htells.keeps (Or.imp_left htells.handles)
  · intro hafter hphase
    have hbefore : d.isClosed = true := hclosed ▸ hafter
    -- nothing joins a closed queue
    have hnothing : messages = [] := by
      by_contra hne
      rw [htells.isOpen hne] at hbefore
      cases hbefore
    rw [htells.queue, hnothing, List.append_nil]
    exact h.emptied hbefore (htells.phase ▸ hphase)

/-- While the queue stays open, the word to stop stays where it is. -/
theorem stay (h : Orderly d) (hbefore : d.isClosed = false) (hafter : d'.isClosed = false)
    (hstopping : d'.stopping = d.stopping) (hqueue : .shutdown ∈ d'.queue ↔ .shutdown ∈ d.queue) :
    Orderly d' where
  underway := by
    intro hnow
    rw [hstopping] at hnow
    refine Or.inl (hqueue.mpr ((h.underway hnow).resolve_right ?_))
    rw [hbefore]
    exact Bool.false_ne_true
  given hmem := hstopping.trans (h.given (hqueue.mp hmem))
  cause hclosed := nomatch hafter.symm.trans hclosed
  emptied hclosed := nomatch hafter.symm.trans hclosed

/-- A closed queue stays closed, and gets no longer. -/
theorem leave (h : Orderly d) (hbefore : d.isClosed = true) (hlive : d.phase ≠ .killed)
    (hafter : d'.isClosed = true) (hstopping : d'.stopping = d.stopping)
    (hhandles : d'.handles = d.handles) (hqueue : d'.queue ⊆ d.queue)
    (hempty : d'.phase ≠ .draining → d'.queue = []) : Orderly d' where
  underway _ := Or.inr hafter
  given hmem := hstopping.trans (h.given (hqueue hmem))
  cause _ := by
    rw [hstopping, hhandles]
    exact (h.cause hbefore).imp_right fun hcause => Or.inl (hcause.resolve_right hlive)
  emptied _ := hempty

theorem turn (h : Orderly d) (hturn : Turn clock disk d d' disk') : Orderly d' := by
  cases hturn with
  | skipSave hphase =>
    refine h.stay ?_ ?_ rfl Iff.rfl
    · rw [isClosed, hphase]
    · show d.isClosed = false
      rw [isClosed, hphase]
  | beginSave _ _ hphase | refuseSave _ _ hphase | endQuietly _ _ hphase | endArmed _ _ hphase
  | saved hphase | saveEffect _ _ _ hphase | saveFault _ _ _ _ hphase =>
    refine h.stay ?_ rfl rfl Iff.rfl
    rw [isClosed, hphase]
  | takeWrite _ _ _ _ htakes hqueue | takeFlush _ _ _ _ htakes hqueue =>
    refine h.stay (isClosed_of_takes htakes) rfl rfl ?_
    rw [hqueue]
    simp
  | takeShutdown handled changed rest htakes hqueue =>
    have hgiven : d.stopping = true := h.given (hqueue ▸ List.mem_cons_self)
    exact ⟨fun _ => Or.inr rfl, fun _ => hgiven, fun _ => Or.inl hgiven, fun _ hne => absurd rfl hne⟩
  | close _ _ hqueue hhandles =>
    refine ⟨fun _ => Or.inr rfl, ?_, fun _ => Or.inr (Or.inl hhandles), fun _ hne => absurd rfl hne⟩
    intro hmem
    rw [hqueue] at hmem
    cases hmem
  | die =>
    exact ⟨fun _ => Or.inr rfl, (fun hmem => nomatch hmem), fun _ => Or.inr (Or.inr rfl), fun _ _ => rfl⟩
  | drainWrite _ rest hphase hqueue | drainFlush _ rest hphase hqueue
  | drainShutdown rest hphase hqueue =>
    have hclosed : d.isClosed = true := by rw [isClosed, hphase]
    refine h.leave hclosed (live_of_phase hphase (by simp)) hclosed rfl rfl ?_ ?_
    · rw [hqueue]
      exact List.subset_cons_self _ _
    · intro hne
      exact absurd hphase hne
  | exitInMemory hphase hqueue | beginFinish _ _ hphase hqueue | refuseFinish _ _ hphase hqueue =>
    refine h.leave ?_ (live_of_phase hphase (by simp)) rfl rfl rfl (fun _ => id) fun _ => hqueue
    rw [isClosed, hphase]
  | finished hphase | finishEffect _ _ _ hphase | finishFault _ _ _ _ hphase =>
    have hclosed : d.isClosed = true := by rw [isClosed, hphase]
    refine h.leave hclosed (live_of_phase hphase (by simp)) rfl rfl rfl (fun _ => id) fun _ => ?_
    exact h.emptied hclosed (by simp [hphase])

theorem queue_of_drained (h : Orderly d) (hdrained : d.isDrained = true) : d.queue = [] := by
  rw [isDrained] at hdrained
  split at hdrained
  next hphase => exact h.emptied (by rw [isClosed, hphase]) (by simp [hphase])
  next hphase => exact h.emptied (by rw [isClosed, hphase]) (by simp [hphase])
  next => cases hdrained

end Orderly

theorem live_of_drained (h : d.isDrained = true) : d.phase ≠ .killed := by
  intro hkilled
  rw [isDrained, hkilled] at h
  cases h

/-- A writer that is gone and did not die has emptied the closed queue. -/
theorem isDrained_of_over (hover : d.isOver = true) (hlive : d.phase ≠ .killed) :
    d.isDrained = true := by
  rw [isOver] at hover
  split at hover
  next hphase => rw [isDrained, hphase]
  next hphase => exact absurd hphase hlive
  next => cases hover

/-- A writer that is gone and did not die has come to its end. -/
theorem exited_of_over (hover : d.isOver = true) (hlive : d.phase ≠ .killed) :
    ∃ result, d.phase = .exited result := by
  rw [isOver] at hover
  split at hover
  next result hphase => exact ⟨result, hphase⟩
  next hphase => exact absurd hphase hlive
  next => cases hover

/-- The drain is over only behind a moment at which the queue was closed and empty. -/
theorem Turn.of_drained (h : Turn clock disk d d' disk') (hbefore : d.isDrained = false)
    (hafter : d'.isDrained = true) : d.phase = .draining ∧ d.queue = [] := by
  cases h with
  | exitInMemory hphase hqueue | beginFinish _ _ hphase hqueue | refuseFinish _ _ hphase hqueue =>
    exact ⟨hphase, hqueue⟩
  | skipSave hphase | drainWrite _ _ hphase | drainFlush _ _ hphase | drainShutdown _ hphase =>
    rw [isDrained, hphase] at hafter
    cases hafter
  | finished hphase | finishEffect _ _ _ hphase | finishFault _ _ _ _ hphase =>
    rw [isDrained, hphase] at hbefore
    cases hbefore
  | _ => cases hafter

-- ── The last checkpoint ─────────────────────────────────────────────────────

/-- The last checkpoint has begun, and is not in the file. -/
def Unwritten (d : Depot) : Prop :=
  (∃ e rest, d.phase = .finishing (e :: rest)) ∨ ∃ fault, d.phase = .exited (.error fault)

/-- What a turn does that leaves the last checkpoint unwritten: it begins it, with nothing done
    to the disk, or goes on with it, by an effect that is not the last or fails. -/
theorem Turn.of_unwritten (h : Turn clock disk d d' disk') (hunwritten : d'.Unwritten) :
    (d.phase = .draining ∧ d.queue = [] ∧ d.target ≠ none ∧ disk' = disk) ∨
      (d.Unwritten ∧ ∃ e rest, d.pending? = some (e :: rest) ∧
        ((disk.perform e = (disk', .ok ()) ∧ rest ≠ []) ∨
          ∃ reason, disk.perform e = (disk', .error reason))) := by
  cases h with
  | beginFinish _ _ hphase hqueue htarget | refuseFinish _ _ hphase hqueue htarget =>
    exact Or.inl ⟨hphase, hqueue, htarget ▸ Option.some_ne_none _, rfl⟩
  | finishEffect e rest _ hphase heffect =>
    refine Or.inr ⟨Or.inl ⟨e, rest, hphase⟩, e, rest, pending?_of_phase hphase, Or.inl ⟨heffect, ?_⟩⟩
    rintro rfl
    rcases hunwritten with ⟨_, _, h⟩ | ⟨_, h⟩ <;> cases h
  | finishFault e rest _ reason hphase heffect =>
    exact Or.inr ⟨Or.inl ⟨e, rest, hphase⟩, e, rest, pending?_of_phase hphase, Or.inr ⟨reason, heffect⟩⟩
  | skipSave hphase | drainWrite _ _ hphase | drainFlush _ _ hphase | drainShutdown _ hphase =>
    rcases hunwritten with ⟨_, _, h⟩ | ⟨_, h⟩ <;> cases hphase.symm.trans h
  | _ =>
    rcases hunwritten with ⟨_, _, h⟩ | ⟨_, h⟩ <;> cases h

/-- The turns that let the writer go without a fault: there is no file, or the checkpoint is
    in it. -/
theorem Turn.of_exited (h : Turn clock disk d d' disk') (hexited : d'.phase = .exited (.ok ())) :
    d'.applied = d.applied ∧ (d.target = none ∨ d.pending? = some []) := by
  cases h with
  | exitInMemory _ _ htarget => exact ⟨rfl, Or.inl htarget⟩
  | finished hphase => exact ⟨rfl, Or.inr (pending?_of_phase hphase)⟩
  | skipSave hphase | drainWrite _ _ hphase | drainFlush _ _ hphase | drainShutdown _ hphase =>
    cases hphase.symm.trans hexited
  | _ => cases hexited

/-- Whoever waits for a writer that is gone gets an answer. -/
theorem shutdownAnswer?_of_over (h : d.isOver = true) : ∃ answer, d.shutdownAnswer? = some answer := by
  rw [isOver] at h
  split at h
  next result hphase => exact ⟨result.mapError .checkpoint, by rw [shutdownAnswer?, hphase]⟩
  next hphase => exact ⟨.error .writerFailed, by rw [shutdownAnswer?, hphase]⟩
  next => cases h

theorem exited_of_answer {answer : Except Refusal Unit} (h : d.shutdownAnswer? = some answer)
    (hlive : answer ≠ .error .writerFailed) :
    ∃ result, d.phase = .exited result ∧ answer = result.mapError .checkpoint := by
  rw [shutdownAnswer?] at h
  split at h
  next result hphase => exact ⟨result, hphase, (Option.some.inj h).symm⟩
  next => exact absurd (Option.some.inj h).symm hlive
  next => cases h

theorem killed_of_answer (h : d.shutdownAnswer? = some (.error .writerFailed)) :
    d.phase = .killed := by
  rw [shutdownAnswer?] at h
  split at h
  next result hphase =>
    cases result with
    | ok _ => cases h
    | error _ => cases h
  next hphase => exact hphase
  next => cases h

/-- The turn at which the writer dies. -/
theorem Turn.of_killed (h : Turn clock disk d d' disk') (hkilled : d'.phase = .killed) :
    ∃ target, d.target = some target ∧ Clock.limit ≤ clock.millis + target.interval := by
  cases h with
  | die _ target _ _ htarget _ hclock => exact ⟨target, htarget, hclock⟩
  | skipSave hphase | drainWrite _ _ hphase | drainFlush _ _ hphase | drainShutdown _ hphase =>
    cases hphase.symm.trans hkilled
  | _ => cases hkilled

end Depot

namespace Site

open Depot

-- ── Along a run ─────────────────────────────────────────────────────────────

theorem orderly_after (start : Catalog) (target : Option Target) (clock : Clock) (disk : Disk)
    (run : List Action) : Orderly ((opened start target clock disk).after run).depot := by
  refine kept_after Orderly ?_ ?_ (Orderly.start start target) run
  · intro messages d d' htells h
    exact h.tell htells
  · intro clock disk disk' d d' hturn h
    exact h.turn hturn

theorem closed_after {s : Site} (h : s.depot.isClosed = true) (run : List Action) :
    (s.after run).depot.isClosed = true := by
  refine kept_after (fun d => d.isClosed = true) ?_ ?_ h run
  · intro messages d d' htells h
    exact (isClosed_congr htells.phase).trans h
  · intro clock disk disk' d d' hturn h
    exact hturn.closed h

/-- Once the word to stop is given, or the last handle gone, the writer gets to its end. -/
theorem over_after_works {s : Site} (h : Orderly s.depot)
    (hleaving : s.depot.stopping = true ∨ s.depot.handles = 0) {n : Nat}
    (hn : s.depot.ahead s.clock ≤ n) : (s.after (works n)).depot.isOver = true := by
  rcases rests_after_works s hn with ⟨hphase, hqueue, hhandles, -⟩ | hover
  · -- a writer that waits would have heard the word, or found itself alone
    have hthen : Orderly (s.after (works n)).depot :=
      kept_after Orderly (fun htells h => h.tell htells) (fun hturn h => h.turn hturn) h (works n)
    have hstopping := (leaving_after hleaving (works n)).resolve_right hhandles
    rcases hthen.underway hstopping with hmem | hclosed
    · rw [hqueue] at hmem
      cases hmem
    · rw [isClosed, hphase] at hclosed
      cases hclosed
  · exact hover

/-- The writer dies only at a time to which the interval cannot be added. -/
theorem limit_le_of_killed (s : Site) (hlive : s.depot.phase ≠ .killed) (run : List Action)
    (hkilled : (s.after run).depot.phase = .killed) :
    ∃ target, s.depot.target = some target ∧
      Clock.limit ≤ (s.after run).clock.millis + target.interval := by
  induction run using List.reverseRecOn with
  | nil => exact absurd hkilled hlive
  | append_singleton run a ih =>
    have htarget := target_after s run
    rw [after_append] at hkilled ⊢
    generalize s.after run = before at ih htarget hkilled ⊢
    show ∃ target, s.depot.target = some target ∧
      Clock.limit ≤ (before.perform a).clock.millis + target.interval
    have hkilled : (before.perform a).depot.phase = .killed := hkilled
    have hhappens := happens before a
    generalize before.perform a = now at hkilled hhappens ⊢
    cases hhappens with
    | send messages depot _ hsent => exact ih (hsent.phase.symm.trans hkilled)
    | rest | outside => exact ih hkilled
    | turn depot disk _ hturn =>
      rw [← htarget]
      exact hturn.of_killed hkilled
    | pass millis =>
      -- the clock only goes on
      obtain ⟨target, htarget, hlimit⟩ := ih hkilled
      refine ⟨target, htarget, Nat.le_trans hlimit ?_⟩
      exact Nat.add_le_add_right (Nat.le_add_right _ _) _

variable {start : Catalog} {clock : Clock} {disk : Disk} {run : List Action}

/-- A writer that has emptied the closed queue has applied all that the queue took. -/
theorem applied_of_drained {target : Option Target}
    (h : ((opened start target clock disk).after run).depot.isDrained = true) :
    ((opened start target clock disk).after run).depot.queue = [] ∧
      ((opened start target clock disk).accepted run).length
        ≤ ((opened start target clock disk).after run).depot.applied := by
  have horder := inOrder_after start target clock disk run
  have horderly := orderly_after start target clock disk run
  generalize (opened start target clock disk).after run = now at *
  generalize (opened start target clock disk).accepted run = requests at *
  have hqueue := horderly.queue_of_drained h
  exact ⟨hqueue, horder.complete (live_of_drained h) hqueue⟩

/-- A writer that went without a fault has moved a checkpoint of all that was applied into the
    file. -/
theorem saved_of_exited {target : Target}
    (hrun : Undisturbed target.file (opened start (some target) clock disk) run)
    (hexited : ((opened start (some target) clock disk).after run).depot.phase = .exited (.ok ())) :
    (opened start (some target) clock disk).saved run
      = some ((opened start (some target) clock disk).after run).depot.applied := by
  induction run using List.reverseRecOn with
  | nil => cases hexited
  | append_singleton run a ih =>
    obtain ⟨hbefore, -, -⟩ := undisturbed_append.mp hrun
    have ih := ih hbefore
    have hdurable := durable_after start target clock disk run hbefore
    rw [after_append] at hexited ⊢
    rw [Site.saved, noted_concat, ← Site.saved]
    generalize (opened start (some target) clock disk).saved run = saved at *
    generalize (opened start (some target) clock disk).after run = before at *
    show (before.moves? a).or saved = some (before.perform a).depot.applied
    change (before.perform a).depot.phase = .exited (.ok ()) at hexited
    have hhappens := happens before a
    generalize before.perform a = now at hexited hhappens ⊢
    cases hhappens with
    | send messages depot ha hsent =>
      rw [moves?_of_ne ha, ih (hsent.phase.symm.trans hexited)]
      show some before.depot.applied = some depot.applied
      rw [applied, applied, hsent.counters]
    | rest ha =>
      subst ha
      have hover : before.depot.pending? = none := pending?_of_phase hexited
      rw [moves?_of_pending hover (Or.inl rfl), ih hexited]
      rfl
    | pass _ ha | outside _ ha =>
      subst ha
      exact ih hexited
    | turn depot after ha hturn =>
      subst ha
      obtain ⟨happlied, hend⟩ := hturn.of_exited hexited
      rcases hend with hnone | hdone
      · cases hdurable.configured.symm.trans hnone
      · obtain ⟨bytes, -, -, hsaved⟩ := hdurable.staged _ hdone
        rw [moves?_of_pending hdone (Or.inr rfl), hsaved rfl]
        exact congrArg some happlied.symm

/-- A writer that went without a fault has left the checkpoint of the catalog in the file. -/
theorem kept_of_exited {target : Target}
    (hrun : Undisturbed target.file (opened start (some target) clock disk) run)
    (hexited : ((opened start (some target) clock disk).after run).depot.phase = .exited (.ok ())) :
    ∃ bytes, encode ((opened start (some target) clock disk).after run).depot.catalog = .ok bytes ∧
      ((opened start (some target) clock disk).after run).disk.files.read target.file = .ok bytes := by
  have hdurable := durable_after start target clock disk run hrun
  rw [(inOrder_after start (some target) clock disk run).catalog]
  exact (hdurable.held.checkpoint _ (saved_of_exited hrun hexited)).2

/-- At some moment of a run the last checkpoint was begun, with the queue closed and empty, and
    since then the file is untouched. -/
def Attempted (file : String) (s : Site) (run : List Action) : Prop :=
  ∃ before behind, run = before ++ .work :: behind ∧ (s.after before).depot.phase = .draining ∧
    (s.after before).depot.queue = [] ∧
    Untouched file (s.after before).disk.files (s.after run).disk.files

theorem Attempted.extend {file : String} {s : Site} {a : Action} (h : Attempted file s run)
    (hfile : Untouched file (s.after run).disk.files (s.after (run ++ [a])).disk.files) :
    Attempted file s (run ++ [a]) := by
  obtain ⟨before, behind, rfl, hphase, hqueue, huntouched⟩ := h
  refine ⟨before, behind ++ [a], ?_, hphase, hqueue, huntouched.trans hfile⟩
  rw [List.append_assoc]
  rfl

/-- Unless the last checkpoint gets into the file, the file stays as it was before. -/
theorem attempted_of_unwritten {target : Target}
    (hrun : Undisturbed target.file (opened start (some target) clock disk) run)
    (hunwritten : ((opened start (some target) clock disk).after run).depot.Unwritten) :
    Attempted target.file (opened start (some target) clock disk) run := by
  generalize hs : opened start (some target) clock disk = s at *
  induction run using List.reverseRecOn with
  | nil =>
    subst hs
    rcases hunwritten with ⟨_, _, h⟩ | ⟨_, h⟩ <;> cases h
  | append_singleton run a ih =>
    obtain ⟨hbefore, halone, -⟩ := undisturbed_append.mp hrun
    have ih := ih hbefore
    have hdurable := durable_after start target clock disk run (hs ▸ hbefore)
    rw [hs] at hdurable
    have hlast : s.after (run ++ [a]) = (s.after run).perform a := after_append s run [a]
    have hstill : (s.after run).depot.Unwritten →
        Untouched target.file (s.after run).disk.files (s.after (run ++ [a])).disk.files →
        Attempted target.file s (run ++ [a]) := fun h hfile => (ih h).extend hfile
    rw [hlast] at hunwritten hstill
    have hhappens := happens (s.after run) a
    generalize hnow : (s.after run).perform a = now at hunwritten hhappens hstill
    cases hhappens with
    | send messages depot _ hsent =>
      refine hstill ?_ (.refl _ _)
      rw [Unwritten, ← hsent.phase]
      exact hunwritten
    | rest | pass => exact hstill hunwritten (.refl _ _)
    | outside after ha => exact hstill hunwritten (halone after ha).untouched
    | turn depot after ha hturn =>
      rcases hturn.of_unwritten hunwritten with
        ⟨hphase, hqueue, -, hdisk⟩ | ⟨hearlier, e, rest, hpending, hdone⟩
      · refine ⟨run, [], by rw [ha], hphase, hqueue, ?_⟩
        rw [hlast, hnow]
        show Untouched _ _ after.files
        rw [hdisk]
        exact .refl _ _
      · obtain ⟨bytes, -, hstaged, -⟩ := hdurable.staged _ hpending
        refine hstill hearlier ?_
        show Untouched _ _ after.files
        rcases hdone with ⟨heffect, hrest⟩ | ⟨reason, heffect⟩
        · have hfile := hstaged.untouched hrest
          rw [heffect] at hfile
          exact hfile
        · exact hstaged.fault heffect

/-- Without a file there is no last checkpoint that could fail. -/
theorem target_ne_none_of_unwritten {target : Option Target}
    (h : ((opened start target clock disk).after run).depot.Unwritten) : target ≠ none := by
  have hkept : ((opened start target clock disk).after run).depot.target ≠ none := by
    refine kept_after (fun d => d.Unwritten → d.target ≠ none) ?_ ?_ ?_ run h
    · intro messages d d' htells hbefore hunwritten
      rw [Unwritten, htells.phase] at hunwritten
      rw [htells.target]
      exact hbefore hunwritten
    · intro clock disk disk' d d' hturn hbefore hunwritten
      rw [hturn.target]
      rcases hturn.of_unwritten hunwritten with ⟨-, -, htarget, -⟩ | ⟨hearlier, -⟩
      · exact htarget
      · exact hbefore hearlier
    · rintro (⟨_, _, hphase⟩ | ⟨_, hphase⟩) <;> cases hphase
  rw [target_after] at hkept
  exact hkept

-- ── Closing ─────────────────────────────────────────────────────────────────

/-- **The contract of closing.** Whenever in a run the word to stop has been given, or the last
    handle gone, the writer gets to its end with so many steps as are ahead of it, and whoever
    waits gets an answer.  When there is one, and the writer did not die: all requests that
    the queue took are applied, in order, the queue is empty, and the depot is stopped as soon
    as the answer is taken.  If all went well, and nobody else touches the file, the file
    holds the checkpoint of the catalog, whether or not anything had changed.  If not, the
    last checkpoint was attempted with the queue closed and empty, and the file is as it was
    before that.  The writer dies only at a time to which the interval cannot be added. -/
theorem closing_of_run (start : Catalog) (target : Option Target) (clock : Clock) (disk : Disk)
    (run : List Action) :
    let s := opened start target clock disk
    let now := s.after run
    (∀ n, now.depot.stopping = true ∨ now.depot.handles = 0 → now.depot.ahead now.clock ≤ n →
        ∃ answer, (now.after (works n)).depot.shutdownAnswer? = some answer) ∧
      (∀ answer, now.depot.shutdownAnswer? = some answer → answer ≠ .error .writerFailed →
        now.depot.catalog = start.applyAll (s.accepted run) ∧ now.depot.queue = [] ∧
        (∃ d, now.depot.endShutdown = some (d, answer) ∧ d.lifecycle = .stopped) ∧
        (answer = .ok () → ∀ t, target = some t → Undisturbed t.file s run →
          ∃ bytes, encode now.depot.catalog = .ok bytes ∧
            now.disk.files.read t.file = .ok bytes) ∧
        (∀ refusal, answer = .error refusal →
          ∃ t fault, target = some t ∧ refusal = .checkpoint fault ∧
            (Undisturbed t.file s run → Attempted t.file s run))) ∧
      (now.depot.shutdownAnswer? = some (.error .writerFailed) →
        ∃ t, target = some t ∧ Clock.limit ≤ now.clock.millis + t.interval) := by
  intro s now
  refine ⟨?_, ?_, ?_⟩
  · intro n hleaving hn
    have hover := over_after_works (orderly_after start target clock disk run) hleaving hn
    exact shutdownAnswer?_of_over hover
  · intro answer hanswer hlive
    obtain ⟨result, hphase, rfl⟩ := exited_of_answer hanswer hlive
    have hdrained : now.depot.isDrained = true := by rw [isDrained, hphase]
    obtain ⟨hqueue, happlied⟩ := applied_of_drained hdrained
    have horder := inOrder_after start target clock disk run
    refine ⟨horder.catalog_of_complete happlied, hqueue, ?_, ?_, ?_⟩
    · refine ⟨{ now.depot with stopped := true }, ?_, rfl⟩
      rw [endShutdown, hanswer]
      rfl
    · intro hok t ht hrun
      subst ht
      cases result with
      | ok _ => exact kept_of_exited hrun hphase
      | error fault => cases hok
    · intro refusal herror
      cases result with
      | ok _ => cases herror
      | error fault =>
        have hunwritten : now.depot.Unwritten := Or.inr ⟨fault, hphase⟩
        obtain ⟨t, rfl⟩ := Option.ne_none_iff_exists'.mp (target_ne_none_of_unwritten hunwritten)
        refine ⟨t, fault, rfl, (Except.error.inj herror).symm, ?_⟩
        intro hrun
        exact attempted_of_unwritten hrun hunwritten
  · intro hfailed
    exact limit_le_of_killed s (fun h => nomatch h) run (killed_of_answer hfailed)

-- ── A shutdown behind a full batch ──────────────────────────────────────────

/-- **What the writer loses when it dies.** When more requests are queued than a batch holds,
    the first of them changes the catalog, and the interval leads out of the clock, then a
    shutdown behind them finds the writer alive, and the requests behind the batch are lost. -/
theorem lost_behind_full_batch {s : Site} {target : Target} (r : Request) (batch late : List Request)
    (hidle : s.depot.phase = .idle) (hempty : s.depot.queue = []) (hdeadline : s.depot.deadline = none)
    (hhandles : s.depot.handles ≠ 0) (hstopping : s.depot.stopping = false)
    (htarget : s.depot.target = some target)
    (hlimit : Clock.limit ≤ s.clock.millis + target.interval)
    (hchanged : (s.depot.catalog.apply r).2.changed = true) (hfull : 1 + batch.length = batchLimit) :
    let asked := s.after (submits (r :: batch ++ late))
    let run := submits (r :: batch ++ late) ++ .beginShutdown :: works (1 + batch.length + 1)
    asked.depot.phase = .idle ∧ s.accepted run = r :: batch ++ late ∧
      (s.after run).depot.phase = .killed ∧
      (s.after run).depot.applied = s.depot.applied + batchLimit := by
  intro asked run
  have hopen : s.depot.isClosed = false := by rw [isClosed, hidle]
  have hasked := after_submits hhandles (r :: batch ++ late)
  rw [submitAll_of_open hopen, hempty, List.nil_append] at hasked
  have htold : asked.perform .beginShutdown =
      { s with
        depot := { s.depot with
          queue := (r :: batch ++ late).map .write ++ [.shutdown]
          counters := (r :: batch ++ late).foldl (fun c _ => c.enqueued) s.depot.counters
          stopping := true } } := by
    show (s.after (submits (r :: batch ++ late))).perform .beginShutdown = _
    rw [hasked]
    simp only [perform, hold, if_neg hhandles, begunShutdown, beginShutdown, hstopping, send, isClosed,
      hidle, Bool.false_eq_true, if_false]
  have hrun : s.after run = (asked.perform .beginShutdown).after (works (1 + batch.length + 1)) :=
    after_append s (submits (r :: batch ++ late)) (.beginShutdown :: works (1 + batch.length + 1))
  refine ⟨?_, ?_, ?_⟩
  · show (s.after (submits (r :: batch ++ late))).depot.phase = .idle
    rw [hasked]
    exact hidle
  · rw [accepted_append, accepted_submits hhandles hopen]
    show r :: batch ++ late ++ ([] ++ Site.accepted _ (works _)) = _
    rw [accepted_works, List.append_nil, List.append_nil]
  · have hrequests : (batch.map Message.write).filterMap Message.request? = batch := by
      rw [List.filterMap_map]
      exact List.filterMap_some
    have hfirst : (asked.perform .beginShutdown).depot.queue
        = .write r :: batch.map .write ++ (late.map .write ++ [.shutdown]) := by
      rw [htold]
      simp
    obtain ⟨-, happlied, hkilled⟩ := killed_of_full_batch r (batch.map .write) (late.map .write ++ [.shutdown])
      (by rw [htold]; exact hidle) (by rw [htold]; exact hdeadline) (by rw [htold]; exact htarget)
      (by rw [htold]; exact hlimit) hfirst (by rw [htold]; exact hchanged) (by simp)
      (by rw [List.length_map]; exact hfull)
    rw [List.length_map] at happlied hkilled
    have hwaited : (asked.perform .beginShutdown).depot.applied = s.depot.applied := by
      rw [htold]
      exact requestsApplied_enqueued _ _
    rw [hrun, works_add, after_append, hkilled]
    refine ⟨rfl, happlied.trans ?_⟩
    rw [hrequests, hfull, hwaited]

/-- A depot with a file, whose first checkpoint would be due after the end of time. -/
def farAhead : Site :=
  opened .empty (some ⟨"depot.ckpt", 18446744073709551615000⟩) ⟨0, 0⟩ (.sound .empty)

/-- A push that changes every catalog. -/
def upPush : Request := .push ⟨"job", ""⟩ .epoch [⟨"up", "", .gauge, []⟩]

/-- One push more than a batch holds, then a shutdown: the last push is lost. -/
theorem push_lost_at_shutdown :
    let crowd := List.replicate 1025 upPush
    let run := submits crowd ++ .beginShutdown :: works 1025
    (farAhead.after (submits crowd)).depot.isOver = false ∧ farAhead.accepted run = crowd ∧
      (farAhead.after run).depot.shutdownAnswer? = some (.error .writerFailed) ∧
      (farAhead.after run).depot.applied = 1024 := by
  have hcrowd : List.replicate 1025 upPush = upPush :: List.replicate 1023 upPush ++ [upPush] := by
    rw [List.cons_append, ← List.replicate_succ', ← List.replicate_succ]
  have hworks : 1 + (List.replicate 1023 upPush).length + 1 = 1025 := by rw [List.length_replicate]
  have hfull : 1 + (List.replicate 1023 upPush).length = batchLimit := by
    rw [List.length_replicate, batchLimit]
  have hlost := lost_behind_full_batch (s := farAhead) upPush (List.replicate 1023 upPush) [upPush]
    rfl rfl rfl (by decide) rfl rfl (by decide) (by decide +kernel) hfull
  rw [← hcrowd, hworks] at hlost
  obtain ⟨hidle, haccepted, hkilled, happlied⟩ := hlost
  intro crowd run
  refine ⟨?_, haccepted, ?_, happlied⟩
  · show (farAhead.after (submits (List.replicate 1025 upPush))).depot.isOver = false
    rw [isOver, hidle]
  · show (farAhead.after
      (submits (List.replicate 1025 upPush) ++ .beginShutdown :: works 1025)).depot.shutdownAnswer? = _
    rw [shutdownAnswer?, hkilled]

end Site

end MetricDepot
