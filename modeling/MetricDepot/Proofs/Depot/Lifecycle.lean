import MetricDepot.Proofs.Depot.Survival
/-!
# Lifecycle — from running to stopped

    Two parties move a depot along its life: the writer by its phases, and the holder who
    completes a shutdown by a mark of its own.  What holders observe is made of both, and it
    never goes back: the writer only goes on, and the mark is set when the writer is gone.

    A depot is `Frozen` when the queue is closed and the drain is over.  Then the queue is
    empty, and no turn that is left touches the catalog or opens the queue again.  From
    persisting on a depot is frozen, whichever of the two parties made that state.

    `Marked` says which actions begin and complete a shutdown; `Begun` is what a run tells
    about that, without a look into the depot.
-/

namespace MetricDepot

/-- How far the life of a depot has come. -/
def Lifecycle.rank : Lifecycle → Nat
  | running => 0
  | draining => 1
  | persisting => 2
  | stopped => 3

theorem Lifecycle.rank_le_three (l : Lifecycle) : l.rank ≤ 3 := by
  cases l <;> decide

namespace Depot

variable {clock : Clock} {disk disk' : Disk} {d d' : Depot}

-- ── The writer goes on ──────────────────────────────────────────────────────

theorem lifecycle_of_stopped (h : d.stopped = true) : d.lifecycle = .stopped := by
  rw [lifecycle, if_pos h]

theorem lifecycle_congr (hphase : d'.phase = d.phase) (hstopped : d'.stopped = d.stopped) :
    d'.lifecycle = d.lifecycle := by
  rw [lifecycle, lifecycle, hphase, hstopped]

theorem lifecycle_of_draining (hphase : d.phase = .draining) (hstopped : d.stopped = false) :
    d.lifecycle = .draining := by
  rw [lifecycle, hphase, hstopped]
  rfl

theorem lifecycle_of_drained (hdrained : d.isDrained = true) (hstopped : d.stopped = false) :
    d.lifecycle = .persisting := by
  rw [isDrained] at hdrained
  rw [lifecycle, hstopped]
  split at hdrained
  next hphase => simp [hphase]
  next hphase => simp [hphase]
  next => cases hdrained

/-- The writer never goes back. -/
theorem Turn.rank_le (h : Turn clock disk d d' disk') : d.lifecycle.rank ≤ d'.lifecycle.rank := by
  obtain ⟨-, -, hsame, -⟩ := h.holders
  cases hstopped : d.stopped with
  | true =>
    rw [lifecycle_of_stopped (hsame.trans hstopped)]
    exact Lifecycle.rank_le_three _
  | false =>
    have hstopped' : d'.stopped = false := hsame.trans hstopped
    cases hclosed : d.isClosed with
    | false =>
      -- nothing comes before running
      rw [(Site.running_of_open hclosed hstopped).1]
      exact Nat.zero_le _
    | true =>
      rcases h.of_closed hclosed with ⟨hphase, hphase' | hdrained'⟩ | ⟨hdrained, hdrained', -⟩
      · have hsame : d.lifecycle = d'.lifecycle := by
          rw [lifecycle_of_draining hphase hstopped, lifecycle_of_draining hphase' hstopped']
        exact Nat.le_of_eq (congrArg Lifecycle.rank hsame)
      · rw [lifecycle_of_draining hphase hstopped, lifecycle_of_drained hdrained' hstopped']
        decide
      · have hsame : d.lifecycle = d'.lifecycle := by
          rw [lifecycle_of_drained hdrained hstopped, lifecycle_of_drained hdrained' hstopped']
        exact Nat.le_of_eq (congrArg Lifecycle.rank hsame)

-- ── Behind the drain ────────────────────────────────────────────────────────

/-- The queue is closed, and the drain is over. -/
def Frozen (d : Depot) : Prop := d.isClosed = true ∧ d.phase ≠ .draining

theorem Turn.frozen (h : Turn clock disk d d' disk') (hfrozen : d.Frozen) :
    d'.Frozen ∧ d'.catalog = d.catalog := by
  obtain ⟨hclosed, hphase⟩ := hfrozen
  rcases h.of_closed hclosed with ⟨hdraining, -⟩ | ⟨-, hdrained', hcatalog⟩
  · exact absurd hdraining hphase
  · refine ⟨⟨h.closed hclosed, ?_⟩, hcatalog⟩
    intro hdraining
    rw [isDrained, hdraining] at hdrained'
    cases hdrained'

theorem frozen_of_over (h : d.isOver = true) : d.Frozen := by
  rw [isOver] at h
  split at h
  next hphase => exact ⟨by rw [isClosed, hphase], by simp [hphase]⟩
  next hphase => exact ⟨by rw [isClosed, hphase], by simp [hphase]⟩
  next => cases h

/-- From persisting on a depot is frozen, if it was stopped only behind the drain. -/
theorem frozen_of_rank (hend : d.stopped = true → d.Frozen)
    (h : Lifecycle.persisting.rank ≤ d.lifecycle.rank) : d.Frozen := by
  cases hstopped : d.stopped with
  | true => exact hend hstopped
  | false =>
    simp only [lifecycle, hstopped, Bool.false_eq_true, if_false] at h
    split at h
    next => exact absurd h (by decide)
    next hphase => exact ⟨by rw [isClosed, hphase], by simp [hphase]⟩
    next hphase => exact ⟨by rw [isClosed, hphase], by simp [hphase]⟩
    all_goals exact absurd h (by decide)

-- ── The marks of a shutdown ─────────────────────────────────────────────────

/-- Who waits for a writer gets an answer only when it is gone. -/
theorem isOver_of_answer {answer : Except Refusal Unit} (h : d.shutdownAnswer? = some answer) :
    d.isOver = true := by
  rw [shutdownAnswer?] at h
  split at h
  next hphase => rw [isOver, hphase]
  next hphase => rw [isOver, hphase]
  next => cases h

/-- A second shutdown is refused, and only that. -/
theorem beginShutdown_refused_iff : d.beginShutdown = .error .alreadyShutDown ↔ d.stopping = true := by
  rw [beginShutdown]
  cases d.stopping with
  | true => simp
  | false => simp

end Depot

namespace Site

open Depot

/-- What an action does to the marks that holders leave: most actions none of it, while a holder
    who begins a shutdown, or completes one behind the writer, leaves its mark. -/
inductive Marked (s : Site) (a : Action) (d : Depot) : Prop where
  | none (ha : ¬ (a = .beginShutdown ∧ s.depot.handles ≠ 0)) (hstopping : d.stopping = s.depot.stopping)
      (hstopped : d.stopped = s.depot.stopped)
  | begins (ha : a = .beginShutdown) (hhandles : s.depot.handles ≠ 0) (hstopping : d.stopping = true)
      (hstopped : d.stopped = s.depot.stopped)
  | ends (ha : a = .endShutdown) (hover : s.depot.isOver = true) (hstopping : d.stopping = s.depot.stopping)
      (hstopped : d.stopped = true)

theorem marked_hold (s : Site) {a : Action} {change : Depot → Depot}
    (hchange : s.depot.handles ≠ 0 → Marked s a (change s.depot)) :
    Marked s a (s.hold change).depot := by
  rw [hold]
  split
  next hhandles => exact .none (fun h => h.2 hhandles) rfl rfl
  next hhandles => exact hchange hhandles

theorem marked_of_ne {s : Site} {a : Action} {d : Depot} (ha : a ≠ .beginShutdown)
    (hstopping : d.stopping = s.depot.stopping) (hstopped : d.stopped = s.depot.stopped) :
    Marked s a d :=
  .none (fun h => ha h.1) hstopping hstopped

theorem marked_begunShutdown {s : Site} (hhandles : s.depot.handles ≠ 0) :
    Marked s .beginShutdown (begunShutdown s.depot) := by
  cases hstopping : s.depot.stopping with
  | true =>
    simp only [begunShutdown, beginShutdown, hstopping, if_true]
    exact .begins rfl hhandles hstopping rfl
  | false =>
    simp only [begunShutdown, beginShutdown, hstopping, Bool.false_eq_true, if_false, send]
    split
    · exact .begins rfl hhandles rfl rfl
    · exact .begins rfl hhandles rfl rfl

theorem marked_endedShutdown (s : Site) : Marked s .endShutdown (endedShutdown s.depot) := by
  unfold endedShutdown
  split
  next _ _ _ hend =>
    obtain ⟨answer, hanswer, hresult⟩ := Option.map_eq_some_iff.mp hend
    obtain ⟨rfl, -⟩ := Prod.mk.inj hresult
    exact .ends rfl (isOver_of_answer hanswer) rfl rfl
  · exact marked_of_ne (by simp) rfl rfl

/-- **What an action does to the marks of a shutdown.** -/
theorem marked (s : Site) (a : Action) : Marked s a (s.perform a).depot := by
  cases a with
  | submit r =>
    refine marked_hold s fun _ => ?_
    rw [submit, send]
    split
    · exact marked_of_ne (by simp) rfl rfl
    · exact marked_of_ne (by simp) rfl rfl
  | flush =>
    refine marked_hold s fun _ => ?_
    rw [beginFlush, send]
    split
    · exact marked_of_ne (by simp) rfl rfl
    · exact marked_of_ne (by simp) rfl rfl
  | beginShutdown => exact marked_hold s marked_begunShutdown
  | endShutdown => exact marked_hold s fun _ => marked_endedShutdown s
  | clone | drop => exact marked_hold s fun _ => marked_of_ne (by simp) rfl rfl
  | look | wait | outside => exact marked_of_ne (by simp) rfl rfl
  | work =>
    cases hstep : s.depot.step s.clock s.disk with
    | none =>
      simp only [perform, hstep]
      exact marked_of_ne (by simp) rfl rfl
    | some next =>
      simp only [perform, hstep]
      obtain ⟨-, hstopping, hstopped, -⟩ := (turn_of_step hstep).holders
      exact marked_of_ne (by simp) hstopping hstopped

-- ── Along a run ─────────────────────────────────────────────────────────────

/-- At some moment of a run a holder has begun a shutdown, or tried to. -/
def Begun (s : Site) (run : List Action) : Prop :=
  ∃ before behind, run = before ++ .beginShutdown :: behind ∧ (s.after before).depot.handles ≠ 0

theorem begun_concat {s : Site} {run : List Action} {a : Action} :
    Begun s (run ++ [a]) ↔ Begun s run ∨ (a = .beginShutdown ∧ (s.after run).depot.handles ≠ 0) := by
  constructor
  · rintro ⟨before, behind, hrun, hhandles⟩
    rcases List.eq_nil_or_concat behind with rfl | ⟨init, last, rfl⟩
    · obtain ⟨rfl, ha⟩ := List.append_inj' hrun rfl
      exact Or.inr ⟨(List.cons.inj ha).1, hhandles⟩
    · rw [List.concat_eq_append, ← List.cons_append, ← List.append_assoc] at hrun
      obtain ⟨rfl, -⟩ := List.append_inj' hrun rfl
      exact Or.inl ⟨before, init, rfl, hhandles⟩
  · rintro (⟨before, behind, rfl, hhandles⟩ | ⟨rfl, hhandles⟩)
    · exact ⟨before, behind ++ [a], by simp, hhandles⟩
    · exact ⟨run, [], rfl, hhandles⟩

/-- The depot knows whether a shutdown was begun. -/
theorem stopping_iff_begun {s : Site} (hstart : s.depot.stopping = false) (run : List Action) :
    (s.after run).depot.stopping = true ↔ Begun s run := by
  induction run using List.reverseRecOn with
  | nil =>
    refine iff_of_false ?_ ?_
    · exact Bool.eq_false_iff.mp hstart
    · rintro ⟨before, behind, h, -⟩
      cases before <;> cases h
  | append_singleton run a ih =>
    rw [begun_concat, ← ih, after_append]
    show ((s.after run).perform a).depot.stopping = true ↔ _
    cases marked (s.after run) a with
    | none ha hstopping => rw [hstopping, or_iff_left ha]
    | begins ha hhandles hstopping => exact iff_of_true hstopping (Or.inr ⟨ha, hhandles⟩)
    | ends ha _ hstopping =>
      rw [hstopping, or_iff_left]
      rw [ha]
      exact fun h => nomatch h.1

/-- What holders observe never goes back. -/
theorem rank_le_perform (s : Site) (a : Action) :
    s.depot.lifecycle.rank ≤ (s.perform a).depot.lifecycle.rank := by
  have hhappens := happens s a
  have hmarked := marked s a
  generalize s.perform a = s' at hhappens hmarked ⊢
  cases hhappens with
  | send messages depot _ hsent =>
    cases hmarked with
    | none _ _ hstopped | begins _ _ _ hstopped =>
      exact Nat.le_of_eq (congrArg Lifecycle.rank (lifecycle_congr hsent.phase hstopped)).symm
    | ends _ _ _ hstopped =>
      rw [lifecycle_of_stopped hstopped]
      exact Lifecycle.rank_le_three _
  | turn depot disk _ hturn => exact hturn.rank_le
  | rest | pass | outside => exact Nat.le_refl _

theorem rank_le_after (s : Site) (run : List Action) :
    s.depot.lifecycle.rank ≤ (s.after run).depot.lifecycle.rank := by
  induction run generalizing s with
  | nil => exact Nat.le_refl _
  | cons a run ih => exact Nat.le_trans (rank_le_perform s a) (ih (s.perform a))

/-- **Behind the drain nothing changes.** Whatever happens to a frozen depot, it stays frozen,
    and keeps its catalog. -/
theorem frozen_perform {s : Site} (h : s.depot.Frozen) (a : Action) :
    (s.perform a).depot.Frozen ∧ (s.perform a).depot.catalog = s.depot.catalog := by
  have hhappens := happens s a
  generalize s.perform a = s' at hhappens
  cases hhappens with
  | send messages depot _ hsent =>
    refine ⟨?_, hsent.catalog⟩
    rw [Frozen, isClosed_congr hsent.phase, hsent.phase]
    exact h
  | turn depot disk _ hturn => exact hturn.frozen h
  | rest | pass | outside => exact ⟨h, rfl⟩

theorem frozen_after {s : Site} (h : s.depot.Frozen) (run : List Action) :
    (s.after run).depot.Frozen ∧ (s.after run).depot.catalog = s.depot.catalog := by
  induction run generalizing s with
  | nil => exact ⟨h, rfl⟩
  | cons a run ih =>
    obtain ⟨hnext, hcatalog⟩ := frozen_perform h a
    obtain ⟨hlater, hsame⟩ := ih hnext
    exact ⟨hlater, hsame.trans hcatalog⟩

/-- A shutdown is completed only behind the drain. -/
theorem frozen_of_stopped {s : Site} (hstart : s.depot.stopped = false) (run : List Action)
    (h : (s.after run).depot.stopped = true) : (s.after run).depot.Frozen := by
  induction run using List.reverseRecOn with
  | nil => cases hstart.symm.trans h
  | append_singleton run a ih =>
    rw [after_append] at h ⊢
    refine (frozen_perform ?_ a).1
    cases marked (s.after run) a with
    | none _ _ hstopped | begins _ _ _ hstopped => exact ih (hstopped.symm.trans h)
    | ends _ hover => exact frozen_of_over hover

/-- While somebody holds a handle, a depot is well until a shutdown is begun or the writer dies. -/
theorem health_iff {d : Depot} (h : Orderly d) (hstopped : d.stopped = true → d.stopping = true)
    (hhandles : d.handles ≠ 0) : d.health = .ok () ↔ d.stopping = false ∧ d.isOver = false := by
  constructor
  · intro hwell
    rw [health] at hwell
    split at hwell
    next hsound => simpa using hsound.2
    next => cases hwell
  · rintro ⟨hstopping, hover⟩
    have hopen : d.isClosed = false := by
      by_contra hclosed
      rcases h.cause (Bool.not_eq_false _ ▸ hclosed) with hword | halone | hkilled
      · rw [hword] at hstopping
        cases hstopping
      · exact hhandles halone
      · rw [isOver, hkilled] at hover
        cases hover
    refine health_of_open hopen hstopping ?_
    by_contra hmark
    rw [hstopped (Bool.not_eq_false _ ▸ hmark)] at hstopping
    cases hstopping

-- ── The lifecycle ───────────────────────────────────────────────────────────

/-- **The life of a depot.** In every run, with handles made and given up, shutdowns begun and
    completed, requests submitted and flushes asked for in any order: what holders observe
    never goes back.  A shutdown is refused as the second if and only if one was begun before,
    so of all that are begun only the first gets another answer.  From persisting on the queue
    is closed and empty, and the catalog never changes again.  While there is a handle, the
    depot is well exactly until a shutdown is begun or the writer is gone.  And a request that
    is submitted behind the closing of the queue changes nothing at all, neither catalog nor
    file nor counter, then or later. -/
theorem lifecycle_of_run (start : Catalog) (target : Option Target) (clock : Clock) (disk : Disk)
    (run more : List Action) :
    let s := opened start target clock disk
    let now := s.after run
    let later := s.after (run ++ more)
    now.depot.lifecycle.rank ≤ later.depot.lifecycle.rank ∧
      (now.depot.beginShutdown = .error .alreadyShutDown ↔ Begun s run) ∧
      (now.depot.handles ≠ 0 →
        (s.after (run ++ .beginShutdown :: more)).depot.beginShutdown = .error .alreadyShutDown) ∧
      (Lifecycle.persisting.rank ≤ now.depot.lifecycle.rank →
        (now.depot.isClosed = true ∧ now.depot.queue = []) ∧
        (later.depot.isClosed = true ∧ later.depot.queue = []) ∧
        later.depot.catalog = now.depot.catalog) ∧
      (now.depot.handles ≠ 0 →
        (now.depot.health = .ok () ↔ ¬ Begun s run ∧ now.depot.isOver = false)) ∧
      (now.depot.isClosed = true →
        ∀ r, s.after (run ++ .submit r :: more) = later) := by
  intro s now later
  have hlater : later = now.after more := after_append s run more
  have hbegun : now.depot.stopping = true ↔ Begun s run := stopping_iff_begun rfl run
  have horderly : Orderly now.depot := orderly_after start target clock disk run
  refine ⟨?_, ?_, ?_, ?_, ?_, ?_⟩
  · rw [hlater]
    exact rank_le_after now more
  · rw [beginShutdown_refused_iff]
    exact hbegun
  · intro hhandles
    rw [beginShutdown_refused_iff, stopping_iff_begun rfl]
    exact ⟨run, more, rfl, hhandles⟩
  · intro hrank
    have hfrozen : now.depot.Frozen := frozen_of_rank (frozen_of_stopped rfl run) hrank
    obtain ⟨hstill, hcatalog⟩ := frozen_after hfrozen more
    have horderly' : Orderly later.depot := orderly_after start target clock disk (run ++ more)
    rw [← hlater] at hstill hcatalog
    exact ⟨⟨hfrozen.1, horderly.emptied hfrozen.1 hfrozen.2⟩,
      ⟨hstill.1, horderly'.emptied hstill.1 hstill.2⟩, hcatalog⟩
  · intro hhandles
    rw [health_iff horderly stopping_of_stopped hhandles, ← hbegun, Bool.not_eq_true]
  · intro hclosed r
    have hnothing : now.perform (.submit r) = now := by
      show now.hold (·.submit r) = now
      rw [hold, submit_of_closed hclosed]
      split
      · rfl
      · rfl
    rw [hlater, after_append]
    show (now.perform (.submit r)).after more = _
    rw [hnothing]

end Site

end MetricDepot
