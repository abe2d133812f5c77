import MetricDepot.Proofs.Catalog.Requests
import MetricDepot.Proofs.Catalog.Slots
/-!
# Effects — which request decides what a slot holds

    A write affects a slot of its group if it offers, under the name of the slot, a family
    that the group admits; it leaves that family there, reduced to the samples that belong to
    the group.  A deletion affects the slots that it covers, and leaves nothing there.  What a
    request leaves depends on the request alone, and not on what was there.

    So a slot holds what the last request that affects it has left, and if there is none,
    what it held in the beginning: `last_request_decides`.
-/

namespace MetricDepot

/-- A group admits a family under its own name, if the family has no flaw, and no samples or one
    that belongs to the group. -/
def Group.Admits (g : Group) (key : String) (f : Family) : Prop :=
  f.name = key ∧ f.isValid = true ∧
    (f.samples = [] ∨ ∃ sample ∈ f.samples, sample.belongs g = true)

instance (g : Group) (key : String) (f : Family) : Decidable (g.Admits key f) :=
  inferInstanceAs (Decidable (f.name = key ∧ f.isValid = true ∧
    (f.samples = [] ∨ ∃ sample ∈ f.samples, sample.belongs g = true)))

namespace Request

/-- A write affects a slot of its group if the group admits what it offers under the name; a
    deletion affects the slots that it covers. -/
def Affects (r : Request) (s : Slot) : Prop :=
  match r.change with
  | .write families =>
      s.group = r.group ∧ ∃ f, families.get? s.name = some f ∧ r.group.Admits s.name f
  | .delete => Catalog.Covers r.group s

/-- What a request leaves in a slot that it affects: a write the family with the samples that
    belong, in their order, and a time that is not before the epoch; a deletion nothing. -/
def leaves (r : Request) (s : Slot) : Option Stored :=
  match r.change with
  | .write families => (families.get? s.name).map fun f =>
      ⟨max r.received .epoch, f.filter (·.belongs r.group)⟩
  | .delete => none

end Request

namespace Catalog

variable {g : Group} {received : ReceiveTime} {offered : List (String × Family)} {s : Slot}

-- ── Writing, seen from the slots ────────────────────────────────────────────

theorem accepted_of_admits {key : String} {f : Family} (h : g.Admits key f) :
    (judge g key f).accepted = some (f.filter (·.belongs g)) := by
  obtain ⟨hname, hvalid, hsome⟩ := h
  rw [judge, if_pos ⟨hname.symm, hvalid⟩, Family.accepted_admission, if_pos hsome]

theorem accepted_of_not_admits {key : String} {f : Family} (h : ¬ g.Admits key f) :
    (judge g key f).accepted = none := by
  rw [judge]
  split
  next hboth =>
    obtain ⟨hname, hvalid⟩ := hboth
    rw [Family.accepted_admission, if_neg (fun hsome => h ⟨hname.symm, hvalid, hsome⟩)]
  next => rfl

/-- The slots that a write fills, with what it puts there. -/
def filled (g : Group) (received : ReceiveTime) (offered : List (String × Family)) :
    List (Slot × Stored) :=
  offered.filterMap fun (key, f) =>
    (judge g key f).accepted.map fun taken => (⟨g, key⟩, ⟨max received .epoch, taken⟩)

theorem write_eq_insertAll (c : Catalog) (g : Group) (received : ReceiveTime)
    (offered : List (String × Family)) :
    (c.write g received offered).1 = c.insertAll (filled g received offered) := by
  have hfilled : filled g received offered =
      ((offered.map fun offer => (offer.1, judge g offer.1 offer.2)).filterMap
        fun verdict => verdict.2.accepted.map (verdict.1, ·)).map
          fun taken => (⟨g, taken.1⟩, ⟨max received .epoch, taken.2⟩) := by
    rw [filled, List.filterMap_map, List.map_filterMap]
    refine congrArg (List.filterMap · offered) (funext fun offer => ?_)
    simp [Function.comp_def]
  rw [hfilled, insertAll, List.foldl_map]
  rfl

theorem mem_filled {stored : Stored} :
    (s, stored) ∈ filled g received offered ↔
      s.group = g ∧ ∃ f, (s.name, f) ∈ offered ∧ g.Admits s.name f ∧
        stored = ⟨max received .epoch, f.filter (·.belongs g)⟩ := by
  rw [filled, List.mem_filterMap]
  constructor
  · rintro ⟨⟨key, f⟩, hoffer, htaken⟩
    obtain ⟨taken, haccepted, hentry⟩ := Option.map_eq_some_iff.mp htaken
    obtain ⟨rfl, rfl⟩ := Prod.mk.inj hentry
    by_cases hadmits : g.Admits key f
    · rw [accepted_of_admits hadmits] at haccepted
      exact ⟨rfl, f, hoffer, hadmits, by rw [Option.some.inj haccepted]⟩
    · cases (accepted_of_not_admits hadmits).symm.trans haccepted
  · rintro ⟨rfl, f, hoffer, hadmits, rfl⟩
    refine ⟨(s.name, f), hoffer, ?_⟩
    show Option.map _ (judge s.group s.name f).accepted = _
    rw [accepted_of_admits hadmits]
    rfl

/-- Families that are offered under names of their own fill slots of their own. -/
theorem nodup_filled (h : (offered.map (·.1)).Nodup) :
    ((filled g received offered).map (·.1)).Nodup := by
  rw [List.Nodup, List.pairwise_map] at h ⊢
  refine List.pairwise_filterMap.mpr (h.imp ?_)
  rintro ⟨key, f⟩ ⟨other, f'⟩ hne e he e' he' heq
  obtain ⟨_, -, rfl⟩ := Option.map_eq_some_iff.mp he
  obtain ⟨_, -, rfl⟩ := Option.map_eq_some_iff.mp he'
  exact hne (congrArg Slot.name heq)

/-- A write fills the slots of what the group admits, whatever they held, and no others. -/
theorem get?_write (h : (offered.map (·.1)).Nodup) (c : Catalog) {stored : Stored} :
    (c.write g received offered).1.get? s = some stored ↔
      (s, stored) ∈ filled g received offered ∨
        (s ∉ (filled g received offered).map (·.1) ∧ c.get? s = some stored) := by
  rw [write_eq_insertAll, get?_insertAll (nodup_filled h)]

/-- No key is listed twice. -/
theorem nodup_keys {α : Type} (m : SortedMap α) : (m.entries.map (·.1)).Nodup := by
  rw [List.Nodup, List.pairwise_map]
  refine m.ascending.imp ?_
  intro a b hlt heq
  rw [heq] at hlt
  exact String.lt_irrefl _ hlt

theorem mem_filled_entries {families : SortedMap Family} {stored : Stored} :
    (s, stored) ∈ filled g received families.entries ↔
      s.group = g ∧ ∃ f, families.get? s.name = some f ∧ g.Admits s.name f ∧
        stored = ⟨max received .epoch, f.filter (·.belongs g)⟩ := by
  rw [mem_filled]
  simp only [SortedMap.mem_entries_iff]

-- ── Requests, seen from the slots ───────────────────────────────────────────

/-- What a slot holds that a request affects, the request has left there. -/
theorem get?_apply_of_affects (c : Catalog) {r : Request} (h : r.Affects s) :
    (c.apply r).1.get? s = r.leaves s := by
  obtain ⟨group, received, change⟩ := r
  cases change with
  | delete =>
    have hcovers : Covers group s := h
    show (c.remove group).1.get? s = none
    rw [get?_remove, if_pos hcovers]
  | write families =>
    obtain ⟨hgroup, f, hf, hadmits⟩ := h
    have hleaves : Request.leaves ⟨group, received, .write families⟩ s
        = some ⟨max received .epoch, f.filter (·.belongs group)⟩ := by
      show (families.get? s.name).map _ = _
      rw [hf]
      rfl
    rw [hleaves]
    exact (get?_write (nodup_keys families) c).mpr
      (Or.inl (mem_filled_entries.mpr ⟨hgroup, f, hf, hadmits, rfl⟩))

/-- A request leaves alone the slots that it does not affect. -/
theorem get?_apply_of_not_affects (c : Catalog) {r : Request} (h : ¬ r.Affects s) :
    (c.apply r).1.get? s = c.get? s := by
  obtain ⟨group, received, change⟩ := r
  cases change with
  | delete =>
    have hcovers : ¬ Covers group s := h
    show (c.remove group).1.get? s = c.get? s
    rw [get?_remove, if_neg hcovers]
  | write families =>
    have hunfilled : ∀ stored, (s, stored) ∉ filled group received families.entries := by
      intro stored hmem
      obtain ⟨hgroup, f, hf, hadmits, -⟩ := mem_filled_entries.mp hmem
      exact h ⟨hgroup, f, hf, hadmits⟩
    refine Option.ext fun stored => (get?_write (nodup_keys families) c).trans ?_
    constructor
    · rintro (hmem | ⟨-, hheld⟩)
      · exact absurd hmem (hunfilled stored)
      · exact hheld
    · intro hheld
      refine Or.inr ⟨fun hmem => ?_, hheld⟩
      obtain ⟨e, he, rfl⟩ := List.mem_map.mp hmem
      exact hunfilled e.2 he

-- ── Many requests ───────────────────────────────────────────────────────────

theorem applyAll_append (c : Catalog) (before behind : List Request) :
    c.applyAll (before ++ behind) = (c.applyAll before).applyAll behind := List.foldl_append

/-- Requests that do not affect a slot leave it alone. -/
theorem get?_applyAll_of_unaffected (c : Catalog) {requests : List Request}
    (h : ∀ r ∈ requests, ¬ r.Affects s) : (c.applyAll requests).get? s = c.get? s := by
  induction requests generalizing c with
  | nil => rfl
  | cons r requests ih =>
    obtain ⟨hr, hrest⟩ := List.forall_mem_cons.mp h
    exact (ih (c.apply r).1 hrest).trans (get?_apply_of_not_affects c hr)

/-- A slot keeps what a request has left there until another affects it. -/
theorem get?_applyAll_of_last (c : Catalog) (before : List Request) {r : Request}
    {behind : List Request} (haffects : r.Affects s) (hlast : ∀ later ∈ behind, ¬ later.Affects s) :
    (c.applyAll (before ++ r :: behind)).get? s = r.leaves s := by
  calc (c.applyAll (before ++ r :: behind)).get? s
      = (((c.applyAll before).apply r).1.applyAll behind).get? s := by rw [applyAll_append]; rfl
    _ = ((c.applyAll before).apply r).1.get? s := get?_applyAll_of_unaffected _ hlast
    _ = r.leaves s := get?_apply_of_affects _ haffects

/-- Either there is a last request that affects a slot, or none affects it. -/
theorem exists_last_affecting (requests : List Request) (s : Slot) :
    (∃ before r behind, requests = before ++ r :: behind ∧ r.Affects s ∧
        ∀ later ∈ behind, ¬ later.Affects s) ∨
      ∀ r ∈ requests, ¬ r.Affects s := by
  induction requests with
  | nil => exact Or.inr fun _ hr => nomatch hr
  | cons r requests ih =>
    rcases ih with ⟨before, last, behind, rfl, haffects, hlast⟩ | hnone
    · exact Or.inl ⟨r :: before, last, behind, rfl, haffects, hlast⟩
    · by_cases hr : r.Affects s
      · exact Or.inl ⟨[], r, requests, rfl, hr, hnone⟩
      · exact Or.inr (List.forall_mem_cons.mpr ⟨hr, hnone⟩)

/-- **The last request that affects a slot decides what it holds.** After any requests, applied to
    any catalog, a slot holds what the last of them that affects it leaves there, and it
    would hold the same after whatever requests before that one, applied to whatever catalog:
    nothing that was there earlier survives.  If none of the requests affects the slot, it
    holds what it held. -/
theorem last_request_decides (c : Catalog) (requests : List Request) (s : Slot) :
    (∃ before r behind, requests = before ++ r :: behind ∧ r.Affects s ∧
        (∀ later ∈ behind, ¬ later.Affects s) ∧ (c.applyAll requests).get? s = r.leaves s ∧
        ∀ d earlier, (applyAll d (earlier ++ r :: behind)).get? s = r.leaves s) ∨
      ((∀ r ∈ requests, ¬ r.Affects s) ∧ (c.applyAll requests).get? s = c.get? s) := by
  rcases exists_last_affecting requests s with ⟨before, r, behind, rfl, haffects, hlast⟩ | hnone
  · exact Or.inl ⟨before, r, behind, rfl, haffects, hlast,
      get?_applyAll_of_last c before haffects hlast,
      fun d earlier => get?_applyAll_of_last d earlier haffects hlast⟩
  · exact Or.inr ⟨hnone, get?_applyAll_of_unaffected c hnone⟩

end Catalog

end MetricDepot
