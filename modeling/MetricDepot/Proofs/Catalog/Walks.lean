import Mathlib.Data.Set.Card
import MetricDepot.Proofs.Catalog.Gathered
import MetricDepot.Proofs.Catalog.Outcomes
/-!
# Walks — all views of a catalog show the same slots

    A catalog is a map of maps of maps, and a reader who goes through it may come by the entries
    of each in any order.  Such a walk, its sorted form, the number of families, their list and
    the keys are all views of one set: the slots that hold something.

    Two of them look at keys alone.  That no job is there is taken to mean that nothing is
    stored, and a key that is there to mean that something lies under it.  Both are true
    because no operation leaves an empty job or an empty group behind.
-/

namespace MetricDepot

-- ── Walks through a map ─────────────────────────────────────────────────────

namespace SortedMap

variable {α β : Type} {m : SortedMap α} {below : String → α → List β → Prop} {walk : List β}

/-- Whether a list comes up in a walk through a map: its entries in some order, each replaced by
    what comes up below it.  No key is there twice, so what comes up below an entry is a
    function of the entry. -/
def Walks (m : SortedMap α) (below : String → α → List β → Prop) (walk : List β) : Prop :=
  ∃ (order : List (String × α)) (part : String × α → List β), order.Perm m.entries ∧
    (∀ e ∈ m.entries, below e.1 e.2 (part e)) ∧ walk = order.flatMap part

/-- If what comes up below each entry is the same but for order, so is what comes up in all. -/
theorem Walks.perm (h : m.Walks below walk) {listing : String × α → List β}
    (hbelow : ∀ e part, below e.1 e.2 part → part.Perm (listing e)) :
    walk.Perm (m.entries.flatMap listing) := by
  obtain ⟨order, part, horder, hpart, rfl⟩ := h
  refine horder.flatMap ?_
  intro e he
  exact hbelow e (part e) (hpart e (horder.mem_iff.mp he))

end SortedMap

namespace Catalog

variable {c : Catalog} {walk : List (Slot × Stored)} {sizes : List Nat}

-- ── Walks through a catalog ─────────────────────────────────────────────────

/-- Whether the slots of a catalog can be come by in the order of a list. -/
def Walk (c : Catalog) (walk : List (Slot × Stored)) : Prop :=
  c.jobs.Walks (fun job instances => instances.Walks fun inst names => names.Walks fun name stored part =>
    part = [(⟨⟨job, inst⟩, name⟩, stored)]) walk

/-- Whether the sizes of the groups of a catalog can be come by in the order of a list. -/
def Sizes (c : Catalog) (sizes : List Nat) : Prop :=
  c.jobs.Walks (fun _ instances => instances.Walks fun _ names part => part = [names.size]) sizes

/-- A walk comes by what the listing has. -/
theorem Walk.perm (h : c.Walk walk) : walk.Perm c.slots := by
  refine SortedMap.Walks.perm h ?_
  rintro ⟨job, instances⟩ part hpart
  refine hpart.perm ?_
  rintro ⟨inst, names⟩ part hpart
  show part.Perm (names.entries.map fun e => (⟨⟨job, inst⟩, e.1⟩, e.2))
  rw [List.map_eq_flatMap]
  refine hpart.perm ?_
  rintro ⟨name, stored⟩ part rfl
  exact List.Perm.refl _

/-- The walk that takes the entries of every map from the last to the first. -/
def backwards (c : Catalog) : List (Slot × Stored) :=
  c.jobs.entries.reverse.flatMap fun (job, instances) =>
    instances.entries.reverse.flatMap fun (inst, names) =>
      names.entries.reverse.flatMap fun (name, stored) => [(⟨⟨job, inst⟩, name⟩, stored)]

theorem walk_backwards (c : Catalog) : c.Walk c.backwards := by
  refine ⟨_, _, List.reverse_perm _, ?_, rfl⟩
  rintro ⟨job, instances⟩ -
  refine ⟨_, _, List.reverse_perm _, ?_, rfl⟩
  rintro ⟨inst, names⟩ -
  refine ⟨_, _, List.reverse_perm _, ?_, rfl⟩
  rintro ⟨name, stored⟩ -
  rfl

-- ── Numbers ─────────────────────────────────────────────────────────────────

theorem size_eq_sum (c : Catalog) :
    c.size = (c.jobs.entries.map fun e => (e.2.entries.map (·.2.size)).sum).sum := by
  simp only [size, ← List.sum_eq_foldl, SortedMap.values, List.map_map, Function.comp_def]

/-- The sizes of the groups add up to the size of the catalog, in whatever order they come. -/
theorem Sizes.sum_eq (h : c.Sizes sizes) : sizes.sum = c.size := by
  have hperm : sizes.Perm (c.jobs.entries.flatMap fun e => e.2.entries.map (·.2.size)) := by
    refine SortedMap.Walks.perm h ?_
    rintro ⟨job, instances⟩ part hpart
    rw [List.map_eq_flatMap]
    refine hpart.perm ?_
    rintro ⟨inst, names⟩ part rfl
    exact List.Perm.refl _
  rw [hperm.sum_nat, size_eq_sum, List.flatMap_def, List.sum_flatten, List.map_map]
  rfl

theorem length_slots (c : Catalog) : c.slots.length = c.size := by
  simp only [size_eq_sum, slots, slotsOfJob, List.length_flatMap, List.length_map, SortedMap.size]

/-- The slots that hold something with a property are as many as the listing has of them. -/
theorem encard_slots (c : Catalog) (p : Stored → Prop) [DecidablePred p] :
    {s | ∃ stored, c.get? s = some stored ∧ p stored}.encard = c.slots.countP (p ·.2) := by
  -- the listing names no slot twice, so its length is the size of the set
  have hset : {s | ∃ stored, c.get? s = some stored ∧ p stored} =
      {s | s ∈ (c.slots.filter (p ·.2)).map (·.1)} := by
    ext s
    simp [← mem_slots]
  have hnodup : ((c.slots.filter (p ·.2)).map (·.1)).Nodup :=
    c.nodup_slots.sublist (List.filter_sublist.map _)
  rw [hset, ← List.coe_toFinset, Set.encard_coe_eq_coe_finsetCard, List.toFinset_card_of_nodup hnodup,
    List.length_map, List.countP_eq_length_filter]

/-- In a sound catalog nothing is stored just if no job is there. -/
theorem Sound.isEmpty_iff (h : c.Sound) : c.isEmpty = true ↔ c.size = 0 := by
  rw [← length_slots, List.length_eq_zero_iff, isEmpty, SortedMap.isEmpty, List.isEmpty_iff]
  constructor
  · intro hjobs
    rw [slots, hjobs, List.flatMap_nil]
  · intro hslots
    by_contra hjobs
    obtain ⟨job, instances, hjob⟩ := SortedMap.exists_get?_of_ne_nil hjobs
    have hpresent : c.jobs.contains job = true := by
      rw [SortedMap.contains, hjob]
      rfl
    obtain ⟨s, stored, -, hheld⟩ := (h.contains_job_iff job).mp hpresent
    have hlisted := mem_slots.mpr hheld
    rw [hslots] at hlisted
    cases hlisted

/-- **All views of a catalog agree.** Let `walk` be the slots in the order in which some walk comes
    by them, and `sizes` those of the groups in that of another.

    Each slot that holds something comes up once, with what it holds.  Sorted, by any sorter,
    the walk is the listing, which strictly ascends in byte order.  The size is the number of
    slots, and no job is there just if it is zero.  The stored families are those of the walk,
    each as often as slots hold it.  The key of a job is there just if a slot of the job holds
    something, and so for the key of a group. -/
theorem views_agree (h : c.Reachable) (hwalk : c.Walk walk) (hsizes : c.Sizes sizes) :
    (walk.map (·.1)).Nodup ∧
    (∀ s stored, (s, stored) ∈ walk ↔ c.get? s = some stored) ∧
    c.slots.Perm walk ∧ c.slots.Pairwise (fun a b => a.1.Before b.1) ∧
    (∀ sorted : List (Slot × Stored), sorted.Perm walk → sorted.Pairwise (fun a b => ¬ b.1.Before a.1) →
      sorted = c.slots) ∧
    sizes.sum = c.size ∧ {s | ∃ stored, c.get? s = some stored}.encard = c.size ∧
    (c.isEmpty = true ↔ c.size = 0) ∧
    c.families.Perm (walk.map (·.2.family)) ∧ c.families.length = c.size ∧
    (∀ f, {s | ∃ stored, c.get? s = some stored ∧ stored.family = f}.encard = c.families.count f) ∧
    (∀ job, c.jobs.contains job = true ↔ ∃ s stored, s.group.job = job ∧ c.get? s = some stored) ∧
    ∀ g, (c.names? g).isSome = true ↔ ∃ s stored, s.group = g ∧ c.get? s = some stored := by
  have hperm := hwalk.perm
  refine ⟨?_, ?_, hperm.symm, ?_, ?_, hsizes.sum_eq, ?_, h.sound.isEmpty_iff, ?_, ?_, ?_,
    h.sound.contains_job_iff, h.sound.isSome_names?_iff⟩
  · exact (hperm.map _).nodup_iff.mpr c.nodup_slots
  · intro s stored
    rw [hperm.mem_iff, mem_slots]
  · exact c.ascending_slots.imp Slot.before_iff.mpr
  · intro sorted hsame hsorted
    refine eq_slots_of_pairwise (hsame.trans hperm) (hsorted.imp ?_)
    intro a b hnot
    exact not_lt.mp fun hlt => hnot (Slot.before_iff.mpr hlt)
  · have hall := c.encard_slots fun _ => True
    simpa [length_slots] using hall
  · exact (hperm.map _).symm
  · rw [families, List.length_map, length_slots]
  · intro f
    rw [c.encard_slots (·.family = f), families, List.count_eq_countP, List.countP_map]
    rfl

/-- Whoever goes backwards through a catalog of three groups comes by four slots, and the name of two
    of them is not the key of a job. -/
theorem views_agree_mixedKinds :
    mixedKinds.Reachable ∧ mixedKinds.Walk mixedKinds.backwards ∧ mixedKinds.Sizes [1, 2, 1] ∧
      mixedKinds.backwards.map (·.1) =
        [⟨⟨"web", "one"⟩, "up"⟩, ⟨⟨"job", "two"⟩, "up"⟩, ⟨⟨"job", "two"⟩, "down"⟩, ⟨⟨"job", "one"⟩, "up"⟩] ∧
      mixedKinds.slots.Perm mixedKinds.backwards ∧ mixedKinds.size = 4 ∧
      ¬ ∃ s stored, s.group.job = "up" ∧ mixedKinds.get? s = some stored := by
  have hreach : mixedKinds.Reachable := .apply (.apply (.apply .empty _) _) _
  have hwalk : mixedKinds.Walk mixedKinds.backwards := walk_backwards _
  have hsizes : mixedKinds.Sizes [1, 2, 1] := by
    refine ⟨_, fun e => e.2.entries.flatMap fun e => [e.2.size], List.Perm.refl _, ?_, ?_⟩
    · rintro ⟨job, instances⟩ -
      exact ⟨_, _, List.Perm.refl _, fun _ _ => rfl, rfl⟩
    · decide +kernel
  obtain ⟨-, -, hperm, -, -, hsum, -, -, -, -, -, hjobs, -⟩ := views_agree hreach hwalk hsizes
  refine ⟨hreach, hwalk, hsizes, by decide +kernel, hperm, hsum.symm, ?_⟩
  rw [← hjobs]
  decide +kernel

end Catalog

end MetricDepot
