import MetricDepot.Proofs.Depot.Run
/-!
# Order — requests are applied in the order in which they came

    The requests that the queue accepts in a run fall into two parts: those that have been
    applied, and behind them those that still wait.  The catalog is that of the first part,
    applied one after another to the catalog of the beginning, and the queue holds the
    second part, in order.  `InOrder` says so of one moment, the number of applied requests
    being that of the counters.

    A batch and the emptying of the closed queue treat messages alike: `Delivery` is all
    that either does to requests and catalog.  So the invariant needs no account of batches,
    checkpoints or the word to stop.
-/

namespace MetricDepot

namespace Depot

/-- The requests that wait in the queue. -/
def waiting (d : Depot) : List Request := d.queue.filterMap Message.request?

/-- How many requests have been applied. -/
def applied (d : Depot) : Nat := d.counters.requestsApplied

-- ── What a turn does to requests ────────────────────────────────────────────

/-- What a step of the writer may do to the requests and the catalog. -/
inductive Delivery (d d' : Depot) : Prop where
  | apply (r : Request) (hlive : d.phase ≠ .killed) (hwaiting : d.waiting = r :: d'.waiting)
      (hcatalog : d'.catalog = (d.catalog.apply r).1) (happlied : d'.applied = d.applied + 1)
  | keep (hlive : d.phase ≠ .killed) (hwaiting : d'.waiting = d.waiting)
      (hcatalog : d'.catalog = d.catalog) (happlied : d'.applied = d.applied)
  | lose (hphase : d'.phase = .killed) (hcatalog : d'.catalog = d.catalog)
      (happlied : d'.applied = d.applied)

theorem live_of_takes {clock : Clock} {d : Depot} {handled : Nat} {changed : Bool}
    (h : Takes clock d handled changed) : d.phase ≠ .killed := by
  intro hkilled
  rcases h with ⟨hphase, -⟩ | ⟨hphase, -⟩
  · rw [hphase] at hkilled
    cases hkilled
  · rw [hphase] at hkilled
    cases hkilled

theorem live_of_phase {d : Depot} {phase : Phase} (h : d.phase = phase) (hne : phase ≠ .killed) :
    d.phase ≠ .killed := fun hkilled => hne (h.symm.trans hkilled)

/-- Every turn is a delivery: what a batch does with a message, the drain does too. -/
theorem Turn.delivery {clock : Clock} {disk disk' : Disk} {d d' : Depot}
    (h : Turn clock disk d d' disk') : Delivery d d' := by
  cases h with
  | takeWrite handled changed r rest htakes hqueue =>
    refine .apply r (live_of_takes htakes) ?_ rfl rfl
    rw [waiting, hqueue]
    rfl
  | drainWrite r rest hphase hqueue =>
    refine .apply r (live_of_phase hphase (by simp)) ?_ rfl rfl
    rw [waiting, hqueue]
    rfl
  | takeFlush handled changed ticket rest htakes hqueue =>
    refine .keep (live_of_takes htakes) ?_ rfl rfl
    rw [waiting, waiting, hqueue]
    rfl
  | takeShutdown handled changed rest htakes hqueue =>
    refine .keep (live_of_takes htakes) ?_ rfl rfl
    rw [waiting, waiting, hqueue]
    rfl
  | drainFlush ticket rest hphase hqueue =>
    refine .keep (live_of_phase hphase (by simp)) ?_ rfl rfl
    rw [waiting, waiting, hqueue]
    rfl
  | drainShutdown rest hphase hqueue =>
    refine .keep (live_of_phase hphase (by simp)) ?_ rfl rfl
    rw [waiting, waiting, hqueue]
    rfl
  | die => exact .lose rfl rfl rfl
  | skipSave hphase | beginSave _ _ hphase | refuseSave _ _ hphase | close hphase
  | endQuietly _ _ hphase | endArmed _ _ hphase | saved hphase | saveEffect _ _ _ hphase
  | saveFault _ _ _ _ hphase | exitInMemory hphase | beginFinish _ _ hphase
  | refuseFinish _ _ hphase | finished hphase | finishEffect _ _ _ hphase
  | finishFault _ _ _ _ hphase =>
    exact .keep (live_of_phase hphase (by simp)) rfl rfl rfl

-- ── The invariant ───────────────────────────────────────────────────────────

/-- Of the accepted requests, the first have been applied to the catalog `start`, and the
    others wait, unless the writer is dead. -/
structure InOrder (start : Catalog) (requests : List Request) (d : Depot) : Prop where
  within : d.applied ≤ requests.length
  catalog : d.catalog = start.applyAll (requests.take d.applied)
  waiting : d.phase ≠ .killed → d.waiting = requests.drop d.applied

namespace InOrder

variable {start : Catalog} {requests : List Request} {d d' : Depot}

theorem start_inOrder (start : Catalog) (target : Option Target) :
    InOrder start [] (Depot.start start target) :=
  ⟨Nat.le_refl _, rfl, fun _ => rfl⟩

/-- What arrives joins the end of the queue. -/
theorem arrive (h : InOrder start requests d) {arriving : List Request}
    (hphase : d'.phase = d.phase) (hcatalog : d'.catalog = d.catalog)
    (happlied : d'.applied = d.applied) (hwaiting : d'.waiting = d.waiting ++ arriving) :
    InOrder start (requests ++ arriving) d' := by
  refine ⟨?_, ?_, ?_⟩
  · rw [happlied, List.length_append]
    exact Nat.le_trans h.within (Nat.le_add_right _ _)
  · rw [happlied, hcatalog, h.catalog, List.take_append_of_le_length h.within]
  · intro hlive
    rw [happlied, hwaiting, h.waiting (hphase ▸ hlive), List.drop_append_of_le_length h.within]

/-- The next request to be applied is the first of those that wait. -/
theorem deliver (h : InOrder start requests d) (hdelivery : Delivery d d') :
    InOrder start requests d' := by
  cases hdelivery with
  | apply r hlive hwaiting hcatalog happlied =>
    have hdrop : requests.drop d.applied = r :: d'.waiting := by
      rw [← h.waiting hlive, hwaiting]
    -- somebody waits, so not all accepted requests have been applied
    have hlt : d.applied < requests.length := by
      rcases Nat.lt_or_ge d.applied requests.length with hlt | hge
      · exact hlt
      · rw [List.drop_of_length_le hge] at hdrop
        cases hdrop
    rw [List.drop_eq_getElem_cons hlt] at hdrop
    obtain ⟨hr, hrest⟩ := List.cons.inj hdrop
    refine ⟨?_, ?_, ?_⟩
    · rw [happlied]
      exact hlt
    · rw [happlied, hcatalog, h.catalog, List.take_succ_eq_append_getElem hlt, hr]
      simp only [Catalog.applyAll, List.foldl_append, List.foldl_cons, List.foldl_nil]
    · intro _
      rw [happlied, hrest]
  | keep hlive hwaiting hcatalog happlied =>
    refine ⟨?_, ?_, ?_⟩
    · rw [happlied]
      exact h.within
    · rw [happlied, hcatalog]
      exact h.catalog
    · intro _
      rw [happlied, hwaiting]
      exact h.waiting hlive
  | lose hphase hcatalog happlied =>
    refine ⟨?_, ?_, ?_⟩
    · rw [happlied]
      exact h.within
    · rw [happlied, hcatalog]
      exact h.catalog
    · intro hlive
      exact absurd hphase hlive

/-- When nothing waits any more, all accepted requests have been applied. -/
theorem complete (h : InOrder start requests d) (hlive : d.phase ≠ .killed) (hqueue : d.queue = []) :
    requests.length ≤ d.applied := by
  have hwaiting := h.waiting hlive
  rw [Depot.waiting, hqueue] at hwaiting
  exact List.drop_eq_nil_iff.mp hwaiting.symm

theorem catalog_of_complete (h : InOrder start requests d) (hall : requests.length ≤ d.applied) :
    d.catalog = start.applyAll requests := by
  rw [h.catalog, List.take_of_length_le hall]

end InOrder

end Depot

-- ── Along a run ─────────────────────────────────────────────────────────────

namespace Site

open Depot

variable {start : Catalog} {requests : List Request}

/-- Whatever happens, the requests stay in order, with one that is accepted at the end. -/
theorem inOrder_happens {s s' : Site} {a : Action} (hhappens : Happens s a s')
    (h : InOrder start requests s.depot) :
    InOrder start (requests ++ (s.accepts? a).toList) s'.depot := by
  cases hhappens with
  | send messages depot _ hsent haccepts =>
    rw [haccepts]
    refine h.arrive hsent.phase hsent.catalog ?_ ?_
    · rw [applied, applied, hsent.counters]
    · rw [waiting, waiting, hsent.queue, List.filterMap_append]
  | turn depot disk ha hturn =>
    subst ha
    exact (List.append_nil requests).symm ▸ h.deliver hturn.delivery
  | rest ha | pass _ ha | outside _ ha =>
    subst ha
    exact (List.append_nil requests).symm ▸ h

/-- What has been applied stays applied. -/
theorem applied_le_of_happens {s s' : Site} {a : Action} (hhappens : Happens s a s') :
    s.depot.applied ≤ s'.depot.applied := by
  cases hhappens with
  | send messages depot _ hsent haccepts =>
    refine Nat.le_of_eq ?_
    rw [applied, applied, hsent.counters]
  | turn depot disk ha hturn =>
    cases hturn.delivery with
    | apply r hlive hwaiting hcatalog happlied =>
      rw [happlied]
      exact Nat.le_succ _
    | keep hlive hwaiting hcatalog happlied => exact Nat.le_of_eq happlied.symm
    | lose hphase hcatalog happlied => exact Nat.le_of_eq happlied.symm
  | rest | pass | outside => exact Nat.le_refl _

theorem applied_le_after (s : Site) (run : List Action) :
    s.depot.applied ≤ (s.after run).depot.applied := by
  induction run generalizing s with
  | nil => exact Nat.le_refl _
  | cons a run ih => exact Nat.le_trans (applied_le_of_happens (happens s a)) (ih (s.perform a))

/-- The requests are in order at every moment of a run. -/
theorem inOrder_after (start : Catalog) (target : Option Target) (clock : Clock) (disk : Disk)
    (run : List Action) :
    InOrder start ((opened start target clock disk).accepted run)
      ((opened start target clock disk).after run).depot := by
  have h := invariant_after (fun requests s => InOrder start requests s.depot) inOrder_happens
    (s := opened start target clock disk) (InOrder.start_inOrder start target) run
  rw [List.nil_append] at h
  exact h

/-- **Runs apply the accepted requests in order.** At every moment of every run, the catalog
    that readers see is that of the beginning after exactly the first of the accepted
    requests, as many as are counted as applied; the others wait in the queue, in order and
    each once, unless the writer has died.  As the run goes on, applied requests stay
    applied, and accepted ones stay accepted. -/
theorem catalog_of_run (start : Catalog) (target : Option Target) (clock : Clock) (disk : Disk)
    (run more : List Action) :
    let s := opened start target clock disk
    (s.after run).depot.catalog
        = start.applyAll ((s.accepted run).take (s.after run).depot.applied) ∧
      (s.after run).depot.applied ≤ (s.accepted run).length ∧
      ((s.after run).depot.phase ≠ .killed →
        (s.after run).depot.waiting = (s.accepted run).drop (s.after run).depot.applied) ∧
      (s.after run).depot.applied ≤ (s.after (run ++ more)).depot.applied ∧
      s.accepted run <+: s.accepted (run ++ more) := by
  intro s
  have hnow := inOrder_after start target clock disk run
  refine ⟨hnow.catalog, hnow.within, hnow.waiting, ?_, ?_⟩
  · rw [after_append]
    exact applied_le_after (s.after run) more
  · rw [accepted_append]
    exact List.prefix_append _ _

end Site

end MetricDepot
