import MetricDepot.Proofs.Catalog.Outcomes
/-!
# Deletions — what goes, and what stays

    The empty text is the name of an instance like any other where families are written, but
    where something is deleted it stands for all instances.  So a deletion without an instance
    takes the whole job, the instance of the empty name included, and no deletion takes that
    instance alone.

    A deletion with an instance takes this one group, and the job too when it was the last
    (`get?_jobs_remove`).  In a sound catalog a job is there as long as one of its instances
    is, so the job goes exactly when no other instance is left: `effect_of_delete`.
-/

namespace MetricDepot.Catalog

variable {c : Catalog} {g : Group}

-- ── Keys after a deletion ───────────────────────────────────────────────────

/-- A deletion takes a job, or the instance from what is there of it, and touches no other job. -/
theorem get?_jobs_remove (c : Catalog) (g : Group) (job : String) :
    (c.remove g).1.jobs.get? job =
      if job ≠ g.job then c.jobs.get? job
      else if g.inst = "" then none
      else ((c.jobs.get? g.job).map (·.erase g.inst)).filter (!·.isEmpty) := by
  rw [Catalog.remove]
  by_cases hall : g.inst = ""
  · rw [if_pos hall, if_pos hall]
    show (c.jobs.erase g.job).get? job = _
    rw [SortedMap.get?_erase]
    by_cases hjob : job = g.job
    · rw [if_pos hjob, if_neg (not_not_intro hjob)]
    · rw [if_neg hjob, if_pos hjob]
  · rw [if_neg hall, if_neg hall]
    cases hheld : c.jobs.get? g.job with
    | none =>
      by_cases hjob : job = g.job
      · rw [if_neg (not_not_intro hjob), hjob]
        exact hheld
      · rw [if_pos hjob]
    | some instances =>
      by_cases hempty : (instances.erase g.inst).isEmpty = true
      · -- the instance was the last of its job
        simp only [if_pos hempty, SortedMap.get?_erase]
        by_cases hjob : job = g.job
        · simp [hjob, hempty, Option.filter_some]
        · simp [hjob]
      · simp only [if_neg hempty, SortedMap.get?_insert]
        by_cases hjob : job = g.job
        · simp [hjob, hempty, Option.filter_some]
        · simp [hjob]

/-- A deletion with an instance takes the names of that group, and of no other. -/
theorem names?_remove (c : Catalog) (hone : g.inst ≠ "") (other : Group) :
    (c.remove g).1.names? other = if other = g then none else c.names? other := by
  obtain ⟨job, inst⟩ := other
  rw [names?, get?_jobs_remove, if_neg hone]
  by_cases hjob : job = g.job
  · subst hjob
    rw [if_neg (not_not_intro rfl), names?]
    cases hheld : c.jobs.get? g.job with
    | none => simp
    | some instances =>
      have herased : (instances.erase g.inst).get? inst = if inst = g.inst then none else instances.get? inst :=
        SortedMap.get?_erase instances g.inst inst
      have hgroup : (⟨g.job, inst⟩ : Group) = g ↔ inst = g.inst := by
        constructor
        · intro h
          rw [← h]
        · rintro rfl
          rfl
      rw [Option.map_some, Option.bind_some]
      simp only [hgroup, ← herased]
      by_cases hempty : (instances.erase g.inst).isEmpty = true
      · have hlast : (instances.erase g.inst).get? inst = none := by
          rw [SortedMap.get?, List.isEmpty_iff.mp hempty]
          rfl
        simp [hempty, hlast, Option.filter_some]
      · simp [hempty, Option.filter_some]
  · have hother : (⟨job, inst⟩ : Group) ≠ g := by
      rintro rfl
      exact hjob rfl
    rw [if_pos hjob, if_neg hother]
    rfl

/-- In a sound catalog a job is there when one of its instances is. -/
theorem Sound.contains_job_iff_instance (h : c.Sound) (job : String) :
    c.jobs.contains job = true ↔ ∃ inst, (c.names? ⟨job, inst⟩).isSome = true := by
  rw [h.contains_job_iff]
  constructor
  · rintro ⟨s, stored, rfl, hheld⟩
    exact ⟨s.group.inst, (h.isSome_names?_iff s.group).mpr ⟨s, stored, rfl, hheld⟩⟩
  · rintro ⟨inst, hinst⟩
    obtain ⟨s, stored, hgroup, hheld⟩ := (h.isSome_names?_iff ⟨job, inst⟩).mp hinst
    exact ⟨s, stored, congrArg Group.job hgroup, hheld⟩

/-- A job survives the deletion of an instance when it has another. -/
theorem Sound.contains_job_remove_iff (h : c.Sound) (hone : g.inst ≠ "") :
    (c.remove g).1.jobs.contains g.job = true ↔
      ∃ inst, inst ≠ g.inst ∧ (c.names? ⟨g.job, inst⟩).isSome = true := by
  rw [(h.remove g).contains_job_iff_instance]
  refine exists_congr fun inst => ?_
  rw [names?_remove c hone]
  by_cases hinst : inst = g.inst
  · simp [hinst]
  · have hother : (⟨g.job, inst⟩ : Group) ≠ g := by
      intro heq
      exact hinst (congrArg Group.inst heq)
    simp [hother, hinst]

-- ── Once more ───────────────────────────────────────────────────────────────

/-- A deletion leaves nothing that it covers. -/
theorem Sound.reported_remove_remove (h : c.Sound) (g : Group) : ((c.remove g).1.remove g).2 = false := by
  refine Bool.eq_false_iff.mpr ?_
  intro hreported
  obtain ⟨s, stored, hcovers, hheld⟩ := ((h.remove g).reported_remove_iff g).mp hreported
  rw [get?_remove, if_pos hcovers] at hheld
  cases hheld

/-- To delete once more does nothing, and reports nothing. -/
theorem Sound.remove_remove (h : c.Sound) (g : Group) : (c.remove g).1.remove g = ((c.remove g).1, false) :=
  Prod.ext (remove_eq_self (h.remove g) (h.reported_remove_remove g)) (h.reported_remove_remove g)

-- ── The effect of a deletion ────────────────────────────────────────────────

/-- **What a deletion does.** Let a catalog be reachable.  A deletion of a job without an
    instance empties the slots of the job, whatever instance they belong to, and takes its
    key; all other slots and jobs are as they were.  A deletion of an instance empties the
    slots of this one group and takes its key; all other slots, groups and jobs are as they
    were, but the job of the instance is there afterwards if and only if it has another
    instance.  The same deletion once more, at whatever time, changes nothing and says so. -/
theorem effect_of_delete (h : c.Reachable) (g : Group) (received : ReceiveTime) :
    let after := (c.apply (.delete g received)).1
    (g.inst = "" →
        (∀ s, after.get? s = if s.group.job = g.job then none else c.get? s) ∧
          ∀ job, after.jobs.get? job = if job = g.job then none else c.jobs.get? job) ∧
      (g.inst ≠ "" →
        (∀ s, after.get? s = if s.group = g then none else c.get? s) ∧
          (∀ other, after.names? other = if other = g then none else c.names? other) ∧
          (∀ job, job ≠ g.job → after.jobs.get? job = c.jobs.get? job) ∧
          (after.jobs.contains g.job = true ↔
            ∃ inst, inst ≠ g.inst ∧ (c.names? ⟨g.job, inst⟩).isSome = true)) ∧
      ∀ later, after.apply (.delete g later) = (after, ⟨0, 0, 0, true, false⟩) := by
  intro after
  have hsound := h.sound
  have hafter : after = (c.remove g).1 := rfl
  refine ⟨?_, ?_, ?_⟩
  · intro hall
    refine ⟨?_, ?_⟩
    · intro s
      rw [hafter, get?_remove]
      simp only [covers_iff_job hall]
    · intro job
      rw [hafter, get?_jobs_remove, if_pos hall]
      simp only [ne_eq, ite_not]
  · intro hone
    refine ⟨?_, names?_remove c hone, ?_, hsound.contains_job_remove_iff hone⟩
    · intro s
      rw [hafter, get?_remove]
      simp only [covers_iff_group hone]
    · intro job hjob
      rw [hafter, get?_jobs_remove, if_pos hjob]
  · intro later
    show ((after.remove g).1, Outcome.mk 0 0 0 true (after.remove g).2) = _
    rw [hafter, hsound.remove_remove g]

/-- A catalog with two instances of a job, of which one has the empty name, and with another job. -/
def twoInstances : Catalog :=
  empty.applyAll
    [.push ⟨"job", ""⟩ .epoch [⟨"up", "", .gauge, []⟩], .push ⟨"job", "one"⟩ .epoch [⟨"up", "", .gauge, []⟩],
      .push ⟨"web", "one"⟩ .epoch [⟨"up", "", .gauge, []⟩]]

/-- The job keeps its other instance when one is deleted, and goes with both when none is named. -/
theorem effect_of_delete_twoInstances :
    let one := (twoInstances.apply (.delete ⟨"job", "one"⟩ .epoch)).1
    let whole := (twoInstances.apply (.delete ⟨"job", ""⟩ .epoch)).1
    twoInstances.Reachable ∧
      one.get? ⟨⟨"job", "one"⟩, "up"⟩ = none ∧ one.names? ⟨"job", "one"⟩ = none ∧
      one.get? ⟨⟨"job", ""⟩, "up"⟩ = some ⟨.epoch, ⟨"up", "", .gauge, []⟩⟩ ∧
      one.jobs.contains "job" = true ∧
      one.apply (.delete ⟨"job", "one"⟩ .epoch) = (one, ⟨0, 0, 0, true, false⟩) ∧
      whole.get? ⟨⟨"job", ""⟩, "up"⟩ = none ∧ whole.get? ⟨⟨"job", "one"⟩, "up"⟩ = none ∧
      whole.jobs.get? "job" = none ∧
      whole.get? ⟨⟨"web", "one"⟩, "up"⟩ = some ⟨.epoch, ⟨"up", "", .gauge, []⟩⟩ := by
  intro one whole
  have hreach : twoInstances.Reachable := .apply (.apply (.apply .empty _) _) _
  obtain ⟨-, hinstance, hagain⟩ := effect_of_delete hreach ⟨"job", "one"⟩ .epoch
  obtain ⟨hslots, hnames, -, hjob⟩ := hinstance (by decide)
  obtain ⟨hwhole, -⟩ := effect_of_delete hreach ⟨"job", ""⟩ .epoch
  obtain ⟨hemptied, hjobs⟩ := hwhole rfl
  refine ⟨hreach, hslots _, hnames _, (hslots _).trans (by decide), ?_, hagain .epoch, hemptied _,
    hemptied _, hjobs "job", (hemptied _).trans (by decide)⟩
  exact hjob.mpr ⟨"", by decide, by decide⟩

end MetricDepot.Catalog
