import Mathlib.Algebra.GroupWithZero.Nat
import MetricDepot.Proofs.Catalog.Effects
/-!
# Writes — one effect, in every order

    A write offers a map of families, and a map may be walked through in any order.  Each family
    fills a slot of its own or none, so the order leaves no trace in the catalog: two insertions
    into different slots can be exchanged (`insert_comm`).  It leaves none in the outcome
    either, which is made of counts and sums over what is offered.

    `slots_of_write` says what a write does to every slot there is, on any catalog: the slots
    of the families that the group admits are filled, and all others are left alone.
-/

namespace MetricDepot.Catalog

variable {c d : Catalog} {g : Group} {received : ReceiveTime} {offered reordered : List (String × Family)}

-- ── Slots in any order ──────────────────────────────────────────────────────

/-- A catalog is known by its jobs and by the names of its groups. -/
theorem ext_names? (hjobs : ∀ job, c.jobs.contains job = d.jobs.contains job)
    (hnames : ∀ g, c.names? g = d.names? g) : c = d := by
  have hsame : c.jobs = d.jobs := by
    refine SortedMap.ext_get? ?_
    intro job
    have hpresent := hjobs job
    have hgroups : ∀ inst, (c.jobs.get? job).bind (·.get? inst) = (d.jobs.get? job).bind (·.get? inst) :=
      fun inst => hnames ⟨job, inst⟩
    rw [SortedMap.contains, SortedMap.contains] at hpresent
    cases hc : c.jobs.get? job with
    | none =>
      rw [hc, Option.isSome_none, eq_comm, Option.isSome_eq_false_iff, Option.isNone_iff_eq_none] at hpresent
      exact hpresent.symm
    | some instances =>
      rw [hc, Option.isSome_some, eq_comm] at hpresent
      obtain ⟨others, hd⟩ := Option.isSome_iff_exists.mp hpresent
      rw [hc, hd] at hgroups
      rw [hd, SortedMap.ext_get? hgroups]
  obtain ⟨jobs⟩ := c
  exact congrArg Catalog.mk hsame

theorem contains_insert (c : Catalog) (s : Slot) (stored : Stored) (job : String) :
    (c.insert s stored).jobs.contains job = (decide (job = s.group.job) || c.jobs.contains job) :=
  SortedMap.contains_insert _ _ _ _

/-- Different slots can be filled in either order. -/
theorem insert_comm {s t : Slot} (h : s ≠ t) (c : Catalog) (x y : Stored) :
    (c.insert s x).insert t y = (c.insert t y).insert s x := by
  refine ext_names? ?_ ?_
  · intro job
    simp only [contains_insert, Bool.or_left_comm]
  · intro other
    simp only [names?_insert]
    by_cases hs : other = s.group
    · by_cases ht : other = t.group
      · -- two names of one group
        have hname : s.name ≠ t.name := by
          intro heq
          obtain ⟨group, name⟩ := s
          obtain ⟨group', name'⟩ := t
          exact h (by rw [show group = group' from hs.symm.trans ht, show name = name' from heq])
        simp only [if_pos hs, if_pos ht, Option.getD_some]
        rw [SortedMap.insert_comm hname]
      · simp only [if_pos hs, if_neg ht]
    · simp only [if_neg hs]

/-- A listing that names no slot twice can be put in in any order. -/
theorem insertAll_of_perm {listing other : List (Slot × Stored)} (h : listing.Perm other)
    (hnodup : (listing.map (·.1)).Nodup) (c : Catalog) : c.insertAll listing = c.insertAll other := by
  refine h.foldl_eq' ?_ c
  intro a ha b hb c
  by_cases hslot : a.1 = b.1
  · rw [List.inj_on_of_nodup_map hnodup ha hb hslot]
  · exact insert_comm hslot c a.2 b.2

-- ── Outcomes as counts ──────────────────────────────────────────────────────

theorem isSome_accepted_judge (g : Group) (key : String) (f : Family) :
    (judge g key f).accepted.isSome = decide (g.Admits key f) := by
  by_cases h : g.Admits key f
  · rw [accepted_of_admits h, decide_eq_true h]
    rfl
  · rw [accepted_of_not_admits h, decide_eq_false h]
    rfl

/-- What is written are the families that the group admits. -/
theorem written_write (c : Catalog) (g : Group) (received : ReceiveTime)
    (offered : List (String × Family)) :
    (c.write g received offered).2.written =
      offered.countP fun offer => g.Admits offer.1 offer.2 := by
  show (((offered.map fun offer => (offer.1, judge g offer.1 offer.2)).filterMap
    fun verdict => verdict.2.accepted.map (verdict.1, ·))).length = _
  rw [List.length_filterMap_eq_countP, List.countP_map]
  refine List.countP_congr fun offer _ => ?_
  simp only [Function.comp_apply, Option.isSome_map, isSome_accepted_judge]

/-- What is rejected are the families that it does not admit. -/
theorem rejected_write (c : Catalog) (g : Group) (received : ReceiveTime)
    (offered : List (String × Family)) :
    (c.write g received offered).2.rejected =
      offered.countP fun offer => ¬ g.Admits offer.1 offer.2 := by
  show ((offered.map fun offer => (offer.1, judge g offer.1 offer.2)).countP
    fun verdict => verdict.2.accepted.isNone) = _
  rw [List.countP_map]
  refine List.countP_congr fun offer _ => ?_
  rw [Function.comp_apply, ← Option.not_isSome, isSome_accepted_judge, ← decide_not]

/-- Of the families under their own names that have no flaw the samples are rejected that do not
    belong to the group. -/
theorem samplesRejected_write (c : Catalog) (g : Group) (received : ReceiveTime)
    (offered : List (String × Family)) :
    (c.write g received offered).2.samplesRejected =
      (offered.map fun offer =>
        if offer.1 = offer.2.name ∧ offer.2.isValid then offer.2.samples.countP (!·.belongs g) else 0).sum := by
  show ((offered.map fun offer => (offer.1, judge g offer.1 offer.2)).map
    fun verdict => verdict.2.rejected).foldl (· + ·) 0 = _
  rw [← List.sum_eq_foldl, List.map_map]
  refine congrArg List.sum (List.map_congr_left fun offer _ => ?_)
  show (judge g offer.1 offer.2).rejected = _
  rw [judge]
  split
  · exact Family.rejected_admission g offer.2
  · rfl

/-- A write reports a change when it has written something. -/
theorem changed_write (c : Catalog) (g : Group) (received : ReceiveTime)
    (offered : List (String × Family)) :
    (c.write g received offered).2.changed = decide (0 < (c.write g received offered).2.written) := by
  show (!List.isEmpty _) = decide (0 < List.length _)
  generalize List.filterMap _ _ = accepted
  cases accepted with
  | nil => rfl
  | cons => rfl

-- ── Writes in any order ─────────────────────────────────────────────────────

theorem outcome_of_perm (h : offered.Perm reordered) (c : Catalog) (g : Group) (received : ReceiveTime) :
    (c.write g received offered).2 = (c.write g received reordered).2 := by
  have hwritten : (c.write g received offered).2.written = (c.write g received reordered).2.written := by
    rw [written_write, written_write, h.countP_eq]
  have hrejected : (c.write g received offered).2.rejected = (c.write g received reordered).2.rejected := by
    rw [rejected_write, rejected_write, h.countP_eq]
  have hsamples : (c.write g received offered).2.samplesRejected
      = (c.write g received reordered).2.samplesRejected := by
    rw [samplesRejected_write, samplesRejected_write, (h.map _).sum_nat]
  have hchanged : (c.write g received offered).2.changed = (c.write g received reordered).2.changed := by
    rw [changed_write, changed_write, hwritten]
  show Outcome.mk _ _ _ _ _ = Outcome.mk _ _ _ _ _
  congr 1

/-- **Writes do not depend on the order** in which the families are come by. -/
theorem write_of_perm (h : offered.Perm reordered) (hnodup : (offered.map (·.1)).Nodup) (c : Catalog)
    (g : Group) (received : ReceiveTime) : c.write g received offered = c.write g received reordered := by
  refine Prod.ext ?_ (outcome_of_perm h c g received)
  rw [write_eq_insertAll, write_eq_insertAll]
  exact insertAll_of_perm (h.filterMap _) (nodup_filled hnodup) c

/-- **What a write does to the slots.** A write does to any catalog the same in whatever order
    its families are come by.  A slot of its group under whose name it offers a family that
    bears this name, has no flaw, and has no samples or one that belongs, holds afterwards that
    family with the samples that belong, in their order, and the time of the write or the
    epoch, whichever is later.  Every other slot holds what it held. -/
theorem slots_of_write (c : Catalog) {r : Request} {families : SortedMap Family}
    (hwrite : r.change = .write families) (horder : offered.Perm families.entries) :
    let after := c.write r.group r.received offered
    after = c.apply r ∧
      (∀ s f, s.group = r.group → families.get? s.name = some f → f.name = s.name → f.isValid = true →
        (f.samples = [] ∨ ∃ sample ∈ f.samples, sample.belongs r.group = true) →
        after.1.get? s
          = some ⟨max r.received .epoch, { f with samples := f.samples.filter (·.belongs r.group) }⟩) ∧
      ∀ s, (¬ ∃ f, s.group = r.group ∧ families.get? s.name = some f ∧ f.name = s.name ∧
          f.isValid = true ∧ (f.samples = [] ∨ ∃ sample ∈ f.samples, sample.belongs r.group = true)) →
        after.1.get? s = c.get? s := by
  intro after
  obtain ⟨group, received, change⟩ := r
  obtain rfl : change = .write families := hwrite
  have happly : after = c.apply ⟨group, received, .write families⟩ :=
    write_of_perm horder ((horder.map _).nodup_iff.mpr (nodup_keys families)) c group received
  refine ⟨happly, ?_, ?_⟩
  · intro s f hgroup hf hname hvalid hsome
    have haffects : Request.Affects ⟨group, received, .write families⟩ s :=
      ⟨hgroup, f, hf, hname, hvalid, hsome⟩
    rw [happly, get?_apply_of_affects c haffects]
    show (families.get? s.name).map _ = _
    rw [hf]
    rfl
  · intro s hnot
    rw [happly]
    refine get?_apply_of_not_affects c ?_
    rintro ⟨hgroup, f, hf, hname, hvalid, hsome⟩
    exact hnot ⟨f, hgroup, hf, hname, hvalid, hsome⟩

/-- A sample of the only instance of a job. -/
def sampleOf (job : String) : Sample := ⟨SortedMap.ofList [("job", job)], .gauge ⟨0⟩, none⟩

/-- Four families: one under a name that is not its own, one of two jobs, one of another kind than
    its sample, and one of another job. -/
def mixedFamilies : SortedMap Family :=
  SortedMap.ofList
    [("alias", ⟨"real", "", .gauge, [sampleOf "job"]⟩),
      ("mixed", ⟨"mixed", "of two jobs", .gauge, [sampleOf "job", sampleOf "other"]⟩),
      ("odd", ⟨"odd", "", .counter, [sampleOf "job"]⟩),
      ("wrong", ⟨"wrong", "", .gauge, [sampleOf "other"]⟩)]

/-- They are written, a microsecond before the epoch. -/
def mixedWrite : Request := ⟨⟨"job", ""⟩, ⟨-1000, by decide, by decide⟩, .write mixedFamilies⟩

/-- A catalog that holds a family without samples under the last of their names. -/
def wrongHeld : Catalog := (empty.apply (.push ⟨"job", ""⟩ .epoch [⟨"wrong", "", .gauge, []⟩])).1

theorem slots_of_mixedWrite :
    let after := wrongHeld.write mixedWrite.group mixedWrite.received mixedFamilies.entries.reverse
    after = wrongHeld.apply mixedWrite ∧
      after.1.get? ⟨⟨"job", ""⟩, "mixed"⟩
        = some ⟨.epoch, ⟨"mixed", "of two jobs", .gauge, [sampleOf "job"]⟩⟩ ∧
      after.1.get? ⟨⟨"job", ""⟩, "wrong"⟩ = some ⟨.epoch, ⟨"wrong", "", .gauge, []⟩⟩ := by
  intro after
  obtain ⟨hsame, hfilled, hkept⟩ :=
    slots_of_write wrongHeld (r := mixedWrite) rfl (List.reverse_perm mixedFamilies.entries)
  refine ⟨hsame, ?_, ?_⟩
  · exact hfilled ⟨⟨"job", ""⟩, "mixed"⟩
      ⟨"mixed", "of two jobs", .gauge, [sampleOf "job", sampleOf "other"]⟩ rfl
      (by decide) rfl (by decide) (Or.inr ⟨sampleOf "job", List.mem_cons_self, by decide⟩)
  · refine (hkept ⟨⟨"job", ""⟩, "wrong"⟩ ?_).trans (by decide)
    rintro ⟨f, -, hf, -, -, hsome⟩
    obtain rfl : (⟨"wrong", "", .gauge, [sampleOf "other"]⟩ : Family) = f :=
      Option.some.inj ((by decide : mixedFamilies.get? "wrong" = some _).symm.trans hf)
    revert hsome
    decide

end MetricDepot.Catalog
