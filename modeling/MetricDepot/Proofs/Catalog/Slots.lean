import Mathlib.Data.List.Nodup
import Mathlib.Data.Prod.Lex
import Mathlib.Data.String.Basic
import MetricDepot.Catalog.View
/-!
# Slots — the listing of a catalog

    The listing of a catalog names every slot that holds something, each once, with what it
    holds.  It is in the order of job, instance and name, so whoever comes by the slots in
    another order need only sort them: `inOrder_of_perm`.

    A catalog into which such a listing is put, one slot after another, holds the listing and
    besides only what it held before.
-/

namespace MetricDepot

/-- What slots are ordered by: job, then instance, then name. -/
def Slot.key (s : Slot) : String ×ₗ String ×ₗ String :=
  toLex (s.group.job, toLex (s.group.inst, s.name))

theorem Slot.key_injective : Function.Injective Slot.key := by
  rintro ⟨⟨job, inst⟩, name⟩ ⟨⟨job', inst'⟩, name'⟩ h
  obtain ⟨rfl, hrest⟩ := Prod.mk.inj (toLex.injective h)
  obtain ⟨rfl, rfl⟩ := Prod.mk.inj (toLex.injective hrest)
  rfl

theorem Slot.key_lt {s t : Slot} :
    s.key < t.key ↔ s.group.job < t.group.job ∨ s.group.job = t.group.job ∧
      (s.group.inst < t.group.inst ∨ s.group.inst = t.group.inst ∧ s.name < t.name) := by
  rw [key, key, Prod.Lex.toLex_lt_toLex, Prod.Lex.toLex_lt_toLex]

namespace Catalog

-- ── What is listed ──────────────────────────────────────────────────────────

theorem mem_slotsOfJob {job : String} {instances : SortedMap (SortedMap Stored)} {s : Slot}
    {stored : Stored} :
    (s, stored) ∈ slotsOfJob job instances ↔
      s.group.job = job ∧ (instances.get? s.group.inst).bind (·.get? s.name) = some stored := by
  obtain ⟨⟨otherJob, inst⟩, name⟩ := s
  rw [slotsOfJob, List.mem_flatMap, Option.bind_eq_some_iff]
  constructor
  · rintro ⟨⟨listed, names⟩, hinst, hmem⟩
    obtain ⟨⟨listedName, held⟩, hname, heq⟩ := List.mem_map.mp hmem
    injection heq with hslot hheld
    injection hslot with hgroup hlisted
    injection hgroup with hjob hinstance
    subst hjob hinstance hlisted hheld
    exact ⟨rfl, names, (SortedMap.mem_entries_iff _ _ _).mp hinst,
      (SortedMap.mem_entries_iff _ _ _).mp hname⟩
  · rintro ⟨rfl, names, hinst, hname⟩
    refine ⟨(inst, names), (SortedMap.mem_entries_iff _ _ _).mpr hinst, ?_⟩
    exact List.mem_map.mpr ⟨(name, stored), (SortedMap.mem_entries_iff _ _ _).mpr hname, rfl⟩

/-- A slot is listed with what it holds, and with nothing else. -/
theorem mem_slots {c : Catalog} {s : Slot} {stored : Stored} :
    (s, stored) ∈ c.slots ↔ c.get? s = some stored := by
  rw [slots, List.mem_flatMap, get?, names?]
  constructor
  · rintro ⟨⟨job, instances⟩, hjob, hmem⟩
    obtain ⟨rfl, hslot⟩ := mem_slotsOfJob.mp hmem
    rw [(SortedMap.mem_entries_iff _ _ _).mp hjob, Option.bind_some]
    exact hslot
  · intro h
    cases hjob : c.jobs.get? s.group.job with
    | none =>
      rw [hjob] at h
      cases h
    | some instances =>
      rw [hjob, Option.bind_some] at h
      exact ⟨(s.group.job, instances), (SortedMap.mem_entries_iff _ _ _).mpr hjob,
        mem_slotsOfJob.mpr ⟨rfl, h⟩⟩

-- ── In order ────────────────────────────────────────────────────────────────

theorem ascending_slotsOfJob (job : String) (instances : SortedMap (SortedMap Stored)) :
    (slotsOfJob job instances).Pairwise (fun a b => a.1.key < b.1.key) := by
  rw [slotsOfJob, List.pairwise_flatMap]
  refine ⟨?_, ?_⟩
  · rintro ⟨inst, names⟩ -
    rw [List.pairwise_map]
    refine names.ascending.imp ?_
    intro a b hlt
    exact Slot.key_lt.mpr (Or.inr ⟨rfl, Or.inr ⟨rfl, hlt⟩⟩)
  · refine instances.ascending.imp ?_
    intro a b hlt x hx y hy
    obtain ⟨_, -, rfl⟩ := List.mem_map.mp hx
    obtain ⟨_, -, rfl⟩ := List.mem_map.mp hy
    exact Slot.key_lt.mpr (Or.inr ⟨rfl, Or.inl hlt⟩)

/-- The slots are listed in order. -/
theorem ascending_slots (c : Catalog) : c.slots.Pairwise (fun a b => a.1.key < b.1.key) := by
  rw [slots, List.pairwise_flatMap]
  refine ⟨?_, ?_⟩
  · rintro ⟨job, instances⟩ -
    exact ascending_slotsOfJob job instances
  · refine c.jobs.ascending.imp ?_
    intro a b hlt x hx y hy
    refine Slot.key_lt.mpr (Or.inl ?_)
    rw [(mem_slotsOfJob.mp hx).1, (mem_slotsOfJob.mp hy).1]
    exact hlt

/-- No slot is listed twice. -/
theorem nodup_slots (c : Catalog) : (c.slots.map (·.1)).Nodup := by
  rw [List.Nodup, List.pairwise_map]
  refine c.ascending_slots.imp ?_
  intro a b hlt heq
  rw [heq] at hlt
  exact lt_irrefl _ hlt

/-- Listings in order with the same members are equal. -/
theorem eq_of_ascending {l r : List (Slot × Stored)} (hl : l.Pairwise (fun a b => a.1.key < b.1.key))
    (hr : r.Pairwise (fun a b => a.1.key < b.1.key)) (h : ∀ e, e ∈ l ↔ e ∈ r) : l = r := by
  have hne : ∀ a b : Slot × Stored, a.1.key < b.1.key → a ≠ b := by
    rintro a b hlt rfl
    exact lt_irrefl _ hlt
  have hperm : l.Perm r := (List.perm_ext_iff_of_nodup (hl.imp (hne _ _)) (hr.imp (hne _ _))).mpr h
  refine hperm.eq_of_pairwise ?_ hl hr
  intro a b _ _ hab hba
  exact absurd hba (lt_asymm hab)

/-- A listing, put in order. -/
def inOrder (listing : List (Slot × Stored)) : List (Slot × Stored) :=
  listing.mergeSort fun a b => a.1.key ≤ b.1.key

theorem pairwise_inOrder (listing : List (Slot × Stored)) :
    (inOrder listing).Pairwise (fun a b => a.1.key ≤ b.1.key) := by
  have hsorted : (inOrder listing).Pairwise (fun a b => decide (a.1.key ≤ b.1.key) = true) := by
    refine List.pairwise_mergeSort ?_ ?_ listing
    · intro a b c hab hbc
      exact decide_eq_true (le_trans (of_decide_eq_true hab) (of_decide_eq_true hbc))
    · intro a b
      rw [Bool.or_eq_true, decide_eq_true_eq, decide_eq_true_eq]
      exact le_total _ _
  exact hsorted.imp of_decide_eq_true

/-- What a catalog holds is in order in one way only. -/
theorem eq_slots_of_pairwise {c : Catalog} {listing : List (Slot × Stored)} (hperm : listing.Perm c.slots)
    (hsorted : listing.Pairwise (fun a b => a.1.key ≤ b.1.key)) : listing = c.slots := by
  refine hperm.eq_of_pairwise ?_ hsorted (c.ascending_slots.imp le_of_lt)
  -- two families in one place would be two families of one slot
  rintro ⟨s, held⟩ ⟨t, stored⟩ hs ht hle hge
  obtain rfl : s = t := Slot.key_injective (le_antisymm hle hge)
  rw [Option.some.inj ((mem_slots.mp (hperm.mem_iff.mp hs)).symm.trans (mem_slots.mp ht))]

/-- **Every walk through a catalog gives one listing.** In whatever order the slots are come by,
    put in order they are the listing of the catalog. -/
theorem inOrder_of_perm {c : Catalog} {listing : List (Slot × Stored)} (h : listing.Perm c.slots) :
    inOrder listing = c.slots :=
  eq_slots_of_pairwise ((List.mergeSort_perm _ _).trans h) (pairwise_inOrder listing)

-- ── Putting a listing in ────────────────────────────────────────────────────

/-- Puts families into slots, one after another. -/
def insertAll (c : Catalog) (listing : List (Slot × Stored)) : Catalog :=
  listing.foldl (fun c e => c.insert e.1 e.2) c

theorem get?_insertAll {listing : List (Slot × Stored)} (h : (listing.map (·.1)).Nodup) (c : Catalog)
    (s : Slot) (stored : Stored) :
    (c.insertAll listing).get? s = some stored ↔
      (s, stored) ∈ listing ∨ (s ∉ listing.map (·.1) ∧ c.get? s = some stored) := by
  induction listing generalizing c with
  | nil => simp [insertAll]
  | cons e listing ih =>
    obtain ⟨slot, held⟩ := e
    obtain ⟨hfresh, hrest⟩ := List.nodup_cons.mp h
    show ((c.insert slot held).insertAll listing).get? s = some stored ↔ _
    rw [ih hrest, get?_insert]
    by_cases hs : s = slot
    · -- the slot at hand is filled now, and by none of the others
      subst hs
      have habsent : (s, stored) ∉ listing := fun hmem =>
        hfresh (List.mem_map.mpr ⟨(s, stored), hmem, rfl⟩)
      rw [if_pos rfl]
      constructor
      · rintro (hmem | ⟨-, hheld⟩)
        · exact absurd hmem habsent
        · left
          rw [Option.some.inj hheld]
          exact List.mem_cons_self
      · rintro (hmem | ⟨hnot, -⟩)
        · rcases List.mem_cons.mp hmem with heq | hmem
          · exact Or.inr ⟨hfresh, by rw [(Prod.mk.inj heq).2]⟩
          · exact absurd hmem habsent
        · exact absurd List.mem_cons_self hnot
    · rw [if_neg hs]
      simp [hs]

/-- To put in a listing with its families changed is to change what the slots hold. -/
theorem get?_insertAll_slots (c : Catalog) (change : Stored → Stored) (s : Slot) :
    (empty.insertAll (c.slots.map fun e => (e.1, change e.2))).get? s = (c.get? s).map change := by
  have hnodup : ((c.slots.map fun e => (e.1, change e.2)).map (·.1)).Nodup := by
    rw [List.map_map]
    exact nodup_slots c
  refine Option.ext fun stored => ?_
  rw [get?_insertAll hnodup, Option.map_eq_some_iff]
  constructor
  · rintro (hmem | ⟨-, hempty⟩)
    · obtain ⟨⟨slot, held⟩, hlisted, heq⟩ := List.mem_map.mp hmem
      obtain ⟨rfl, rfl⟩ := Prod.mk.inj heq
      exact ⟨held, mem_slots.mp hlisted, rfl⟩
    · cases hempty
  · rintro ⟨held, hheld, rfl⟩
    exact Or.inl (List.mem_map.mpr ⟨(s, held), mem_slots.mpr hheld, rfl⟩)

end Catalog

end MetricDepot
