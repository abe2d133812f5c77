import MetricDepot.Proofs.Catalog.Writes
import MetricDepot.Proofs.Checkpoint.Restored
/-!
# Outcomes — what a request reports is what it did

    A deletion looks only at keys: it reports a change when the key of the job or of the instance
    was there.  In a sound catalog no key is there without a slot, so the report is true of
    the slots as well.  In one that is not sound it would not be: an empty job is taken away
    along with an instance that it does not have, and nothing is reported.

    A write counts each family that it is offered as written or as rejected, and none twice.
-/

namespace MetricDepot

namespace Request

/-- The number of families that a request carries. -/
def carried (r : Request) : Nat :=
  match r.change with
  | .write families => families.size
  | .delete => 0

end Request

namespace Catalog

variable {c : Catalog} {g : Group} {offered : List (String × Family)}

-- ── Keys and slots ──────────────────────────────────────────────────────────

/-- In a sound catalog a group is there when one of its slots holds something. -/
theorem Sound.isSome_names?_iff (h : c.Sound) (g : Group) :
    (c.names? g).isSome = true ↔ ∃ s stored, s.group = g ∧ c.get? s = some stored := by
  constructor
  · intro hsome
    obtain ⟨names, hnames⟩ := Option.isSome_iff_exists.mp hsome
    obtain ⟨name, stored, hname⟩ := SortedMap.exists_get?_of_ne_nil (h.groups g names hnames)
    refine ⟨⟨g, name⟩, stored, rfl, ?_⟩
    rw [get?, hnames]
    exact hname
  · rintro ⟨s, stored, rfl, hheld⟩
    obtain ⟨names, hnames, -⟩ := Option.bind_eq_some_iff.mp hheld
    rw [hnames]
    rfl

/-- In a sound catalog a job is there when one of its slots holds something. -/
theorem Sound.contains_job_iff (h : c.Sound) (job : String) :
    c.jobs.contains job = true ↔ ∃ s stored, s.group.job = job ∧ c.get? s = some stored := by
  constructor
  · intro hsome
    obtain ⟨instances, hjob⟩ := Option.isSome_iff_exists.mp hsome
    obtain ⟨inst, names, hinst⟩ := SortedMap.exists_get?_of_ne_nil (h.jobs job instances hjob)
    have hgroup : (c.names? ⟨job, inst⟩).isSome = true := by
      rw [names?, hjob, Option.bind_some, hinst]
      rfl
    obtain ⟨s, stored, hs, hheld⟩ := (h.isSome_names?_iff ⟨job, inst⟩).mp hgroup
    exact ⟨s, stored, congrArg Group.job hs, hheld⟩
  · rintro ⟨s, stored, rfl, hheld⟩
    obtain ⟨names, hnames, -⟩ := Option.bind_eq_some_iff.mp hheld
    obtain ⟨instances, hjob, -⟩ := Option.bind_eq_some_iff.mp hnames
    rw [SortedMap.contains, hjob]
    rfl

-- ── Deletions ───────────────────────────────────────────────────────────────

/-- A deletion without an instance covers the whole job. -/
theorem covers_iff_job (hall : g.inst = "") (s : Slot) : Covers g s ↔ s.group.job = g.job := by
  simp only [Covers, hall, true_or, and_true]

/-- A deletion with an instance covers its own group. -/
theorem covers_iff_group (hone : g.inst ≠ "") (s : Slot) : Covers g s ↔ s.group = g := by
  constructor
  · rintro ⟨hjob, hinst⟩
    obtain ⟨⟨job, inst⟩, name⟩ := s
    obtain ⟨job', inst'⟩ := g
    rw [show job = job' from hjob, show inst = inst' from hinst.resolve_left hone]
  · rintro rfl
    exact ⟨rfl, Or.inr rfl⟩

/-- A deletion reports whether the key was there that it takes away. -/
theorem reported_remove (c : Catalog) (g : Group) :
    (c.remove g).2 = if g.inst = "" then c.jobs.contains g.job else (c.names? g).isSome := by
  rw [Catalog.remove]
  split
  · rfl
  · rw [names?]
    cases c.jobs.get? g.job with
    | none => rfl
    | some instances => rfl

/-- A deletion reports a change when it covers a slot that holds something. -/
theorem Sound.reported_remove_iff (h : c.Sound) (g : Group) :
    (c.remove g).2 = true ↔ ∃ s stored, Covers g s ∧ c.get? s = some stored := by
  rw [reported_remove]
  split
  next hall =>
    rw [h.contains_job_iff]
    simp only [covers_iff_job hall]
  next hone =>
    rw [h.isSome_names?_iff]
    simp only [covers_iff_group hone]

/-- A deletion reports a change when a slot holds nothing afterwards that held something. -/
theorem Sound.reported_remove_iff_emptied (h : c.Sound) (g : Group) :
    (c.remove g).2 = true ↔ ∃ s stored, c.get? s = some stored ∧ (c.remove g).1.get? s = none := by
  rw [h.reported_remove_iff]
  constructor
  · rintro ⟨s, stored, hcovers, hheld⟩
    refine ⟨s, stored, hheld, ?_⟩
    rw [get?_remove, if_pos hcovers]
  · rintro ⟨s, stored, hheld, hemptied⟩
    refine ⟨s, stored, ?_, hheld⟩
    by_contra hcovers
    rw [get?_remove, if_neg hcovers, hheld] at hemptied
    cases hemptied

-- ── Writes ──────────────────────────────────────────────────────────────────

/-- A group does not admit a family that comes under another name, has a flaw, or has samples of
    which none belongs. -/
theorem not_admits_iff {key : String} {f : Family} :
    ¬ g.Admits key f ↔ key ≠ f.name ∨ f.isValid = false ∨
      (f.samples ≠ [] ∧ ∀ sample ∈ f.samples, sample.belongs g = false) := by
  rw [Group.Admits, not_and_or, not_and_or, not_or, Bool.not_eq_true, ← ne_eq, ne_comm]
  simp only [not_exists, not_and, Bool.not_eq_true, ne_eq]

theorem written_add_rejected_write (c : Catalog) (g : Group) (received : ReceiveTime)
    (offered : List (String × Family)) :
    (c.write g received offered).2.written + (c.write g received offered).2.rejected
      = offered.length := by
  rw [written_write, rejected_write,
    List.length_eq_countP_add_countP fun offer => g.Admits offer.1 offer.2]
  simp only [decide_eq_true_eq]

-- ── Requests ────────────────────────────────────────────────────────────────

/-- The outcome of a request says whether it was a deletion. -/
theorem isDelete_apply (c : Catalog) (r : Request) : (c.apply r).2.isDelete = r.isDelete := by
  obtain ⟨group, received, change⟩ := r
  cases change with
  | write families => rfl
  | delete => rfl

/-- Each family that a request carries is written or rejected. -/
theorem written_add_rejected (c : Catalog) (r : Request) :
    (c.apply r).2.written + (c.apply r).2.rejected = r.carried := by
  obtain ⟨group, received, change⟩ := r
  cases change with
  | write families => exact written_add_rejected_write c group received families.entries
  | delete => rfl

/-- **Outcomes are true.** A request that reports no change to a reachable catalog has changed
    nothing in it.  A deletion reports a change if and only if some slot holds nothing any
    more that held something.  A write does and reports the same in whatever order its
    families are come by.  It reports a change if and only if it has written something; it
    writes or rejects each family that is offered, and rejects exactly those under a name not
    their own, with a flaw, or with samples of which none belongs to the group; and the
    samples that it rejects are those that do not belong, of all families under their own
    names without a flaw. -/
theorem outcome_of_apply (h : c.Reachable) (r : Request) :
    ((c.apply r).2.changed = false → (c.apply r).1 = c) ∧
      (r.change = .delete →
        ((c.apply r).2.changed = true ↔
          ∃ s stored, c.get? s = some stored ∧ (c.apply r).1.get? s = none)) ∧
      ∀ families offered, r.change = .write families → offered.Perm families.entries →
        let outcome := (c.write r.group r.received offered).2
        c.write r.group r.received offered = c.apply r ∧
          (outcome.changed = true ↔ 0 < outcome.written) ∧
          outcome.written + outcome.rejected = families.size ∧
          outcome.rejected = families.entries.countP (fun offer =>
            offer.1 ≠ offer.2.name ∨ offer.2.isValid = false ∨
              (offer.2.samples ≠ [] ∧ ∀ sample ∈ offer.2.samples, sample.belongs r.group = false)) ∧
          outcome.samplesRejected = (families.entries.map fun offer =>
            if offer.1 = offer.2.name ∧ offer.2.isValid then
              offer.2.samples.countP (!·.belongs r.group)
            else 0).sum := by
  have hsound := h.sound
  refine ⟨apply_eq_self hsound, ?_, ?_⟩
  · obtain ⟨group, received, change⟩ := r
    rintro rfl
    exact hsound.reported_remove_iff_emptied group
  · intro families offered hwrite horder outcome
    have hsame : c.write r.group r.received offered = c.write r.group r.received families.entries :=
      write_of_perm horder ((horder.map _).nodup_iff.mpr (nodup_keys families)) c r.group r.received
    have happly : c.apply r = c.write r.group r.received families.entries := by
      rw [Catalog.apply, hwrite]
    refine ⟨hsame.trans happly.symm, ?_, ?_, ?_, ?_⟩
    · rw [changed_write]
      exact decide_eq_true_iff
    · exact (written_add_rejected_write c r.group r.received offered).trans horder.length_eq
    · show (c.write r.group r.received offered).2.rejected = _
      rw [hsame, rejected_write]
      simp only [not_admits_iff]
    · show (c.write r.group r.received offered).2.samplesRejected = _
      rw [hsame, samplesRejected_write]

/-- Of four families one is written and three are rejected, with two samples of another job; then
    the job is deleted, once with an effect and once without. -/
theorem outcome_of_mixedWrite :
    wrongHeld.Reachable ∧
      (wrongHeld.write mixedWrite.group mixedWrite.received mixedFamilies.entries.reverse).2
        = ⟨1, 3, 2, false, true⟩ ∧
      (∃ s stored, wrongHeld.get? s = some stored ∧
        (wrongHeld.apply (.delete ⟨"job", ""⟩ .epoch)).1.get? s = none) ∧
      (wrongHeld.apply (.delete ⟨"job", "one"⟩ .epoch)).1 = wrongHeld := by
  have hreach : wrongHeld.Reachable := .apply .empty _
  refine ⟨hreach, ?_, ?_, ?_⟩
  · obtain ⟨hsame, -⟩ :=
      (outcome_of_apply hreach mixedWrite).2.2 _ _ rfl (List.reverse_perm mixedFamilies.entries)
    rw [hsame]
    decide +kernel
  · exact ((outcome_of_apply hreach (.delete ⟨"job", ""⟩ .epoch)).2.1 rfl).mp (by decide)
  · exact (outcome_of_apply hreach (.delete ⟨"job", "one"⟩ .epoch)).1 (by decide)

end Catalog

end MetricDepot
