import Mathlib.Data.Set.BooleanAlgebra
import Mathlib.Order.CompletePartialOrder
import MetricDepot.Proofs.Catalog.Outcomes
/-!
# Commuting — requests that do not meet

    A request affects slots of its scope only, and what it reports depends on these slots alone,
    since in a sound catalog a key is there when a slot is.  So of two requests with disjoint
    scopes neither notices the other, and they may change places.

    To reorder a sequence of requests is to let some of them overtake others.  As long as none
    overtakes one whose scope meets its own, each can be brought back to its place by
    exchanges of neighbours that do not meet: `requests_commute`.
-/

namespace MetricDepot

namespace Request

/-- The groups that a request is about: all instances of its job, if it deletes and names none, and
    its own group otherwise. -/
def scope (r : Request) : Set Group :=
  if r.isDelete = true ∧ r.group.inst = "" then {g | g.job = r.group.job} else {r.group}

/-- A sequence of requests in another order, in which of two requests whose scopes meet the earlier
    one still comes first.  Each request carries the number of the place that it had. -/
def Reorders (requests reordered : List Request) : Prop :=
  ∃ numbered : List (Request × Nat), numbered.Perm requests.zipIdx ∧
    numbered.map (·.1) = reordered ∧
    numbered.Pairwise fun a b => ¬ Disjoint a.1.scope b.1.scope → a.2 < b.2

variable {r a b : Request} {s : Slot}

/-- A deletion covers the slots of its scope. -/
theorem mem_scope_iff_of_delete (hdelete : r.change = .delete) :
    s.group ∈ r.scope ↔ Catalog.Covers r.group s := by
  have hisDelete : r.isDelete = true := by rw [isDelete, hdelete]
  by_cases hall : r.group.inst = ""
  · rw [scope, if_pos ⟨hisDelete, hall⟩, Catalog.covers_iff_job hall]
    rfl
  · rw [scope, if_neg (fun hboth => hall hboth.2), Catalog.covers_iff_group hall]
    rfl

/-- What a request affects lies in its scope. -/
theorem mem_scope_of_affects (h : r.Affects s) : s.group ∈ r.scope := by
  cases hchange : r.change with
  | delete =>
    rw [Affects, hchange] at h
    exact (mem_scope_iff_of_delete hchange).mpr h
  | write families =>
    rw [Affects, hchange] at h
    have hisDelete : r.isDelete = false := by rw [isDelete, hchange]
    rw [scope, if_neg (by simp [hisDelete]), h.1]
    exact Set.mem_singleton r.group

/-- No slot is affected by two requests that do not meet. -/
theorem not_affects_of_disjoint (h : Disjoint a.scope b.scope) (ha : a.Affects s) : ¬ b.Affects s :=
  fun hb => Set.disjoint_left.mp h (mem_scope_of_affects ha) (mem_scope_of_affects hb)

end Request

namespace Catalog

open Request

variable {c d : Catalog} {a b r : Request}

-- ── Two requests ────────────────────────────────────────────────────────────

/-- What a request reports depends only on the slots of its scope. -/
theorem outcome_eq_of_agree (hc : c.Sound) (hd : d.Sound)
    (h : ∀ s : Slot, s.group ∈ r.scope → c.get? s = d.get? s) : (c.apply r).2 = (d.apply r).2 := by
  have hscope := fun hdelete (s : Slot) => mem_scope_iff_of_delete (s := s) (r := r) hdelete
  obtain ⟨group, received, change⟩ := r
  cases change with
  | write families => rfl
  | delete =>
    have hsame : (c.remove group).2 = (d.remove group).2 := by
      rw [Bool.eq_iff_iff, hc.reported_remove_iff, hd.reported_remove_iff]
      refine exists₂_congr fun s stored => and_congr_right fun hcovers => ?_
      rw [h s ((hscope rfl s).mpr hcovers)]
    show Outcome.mk 0 0 0 true (c.remove group).2 = Outcome.mk 0 0 0 true (d.remove group).2
    rw [hsame]

/-- A request reports the same before and after one that it does not meet. -/
theorem outcome_of_disjoint (h : c.Sound) (hdisjoint : Disjoint a.scope b.scope) :
    ((c.apply a).1.apply b).2 = (c.apply b).2 := by
  refine outcome_eq_of_agree (h.apply a) h ?_
  intro s hs
  exact get?_apply_of_not_affects c fun ha => Set.disjoint_left.mp hdisjoint (mem_scope_of_affects ha) hs

/-- Requests that do not meet may change places. -/
theorem apply_comm (h : c.Sound) (hdisjoint : Disjoint a.scope b.scope) :
    ((c.apply a).1.apply b).1 = ((c.apply b).1.apply a).1 := by
  refine Sound.ext ((h.apply a).apply b) ((h.apply b).apply a) ?_
  intro s
  by_cases ha : a.Affects s
  · have hb : ¬ b.Affects s := not_affects_of_disjoint hdisjoint ha
    rw [get?_apply_of_not_affects _ hb, get?_apply_of_affects _ ha, get?_apply_of_affects _ ha]
  · by_cases hb : b.Affects s
    · rw [get?_apply_of_affects _ hb, get?_apply_of_not_affects _ ha, get?_apply_of_affects _ hb]
    · rw [get?_apply_of_not_affects _ hb, get?_apply_of_not_affects _ ha,
        get?_apply_of_not_affects _ ha, get?_apply_of_not_affects _ hb]

-- ── Many requests ───────────────────────────────────────────────────────────

/-- A request may go before others that it does not meet. -/
theorem applyAll_overtake (h : c.Sound) {before : List Request} (behind : List Request)
    (hdisjoint : ∀ a ∈ before, Disjoint a.scope r.scope) :
    c.applyAll (before ++ r :: behind) = c.applyAll (r :: (before ++ behind)) := by
  induction before generalizing c with
  | nil => rfl
  | cons a before ih =>
    obtain ⟨ha, hrest⟩ := List.forall_mem_cons.mp hdisjoint
    calc c.applyAll (a :: (before ++ r :: behind))
        = (c.apply a).1.applyAll (before ++ r :: behind) := rfl
      _ = ((c.apply a).1.apply r).1.applyAll (before ++ behind) := ih (h.apply a) hrest
      _ = ((c.apply r).1.apply a).1.applyAll (before ++ behind) := by rw [apply_comm h ha]
      _ = c.applyAll (r :: (a :: before ++ behind)) := rfl

/-- Requests do the same in every order in which those that meet stand by their numbers. -/
theorem applyAll_of_numbered (h : c.Sound) {numbered placed : List (Request × Nat)}
    (hplaced : placed.Pairwise fun a b => a.2 < b.2) (hperm : numbered.Perm placed)
    (hkept : numbered.Pairwise fun a b => ¬ Disjoint a.1.scope b.1.scope → a.2 < b.2) :
    c.applyAll (numbered.map (·.1)) = c.applyAll (placed.map (·.1)) := by
  induction placed generalizing c numbered with
  | nil => rw [hperm.eq_nil]
  | cons first placed ih =>
    obtain ⟨hfirst, hrest⟩ := List.pairwise_cons.mp hplaced
    obtain ⟨before, behind, rfl⟩ := List.append_of_mem (hperm.mem_iff.mpr List.mem_cons_self)
    have hothers : (before ++ behind).Perm placed := (List.perm_middle.symm.trans hperm).cons_inv
    have hapart : ∀ a ∈ before.map (·.1), Disjoint a.scope first.1.scope := by
      intro a ha
      obtain ⟨x, hx, rfl⟩ := List.mem_map.mp ha
      by_contra hmeets
      -- what has overtaken the first and meets it would have a lower number
      have hlower : x.2 < first.2 :=
        (List.pairwise_append.mp hkept).2.2 x hx first List.mem_cons_self hmeets
      have hhigher : first.2 < x.2 := hfirst x (hothers.mem_iff.mp (List.mem_append_left _ hx))
      omega
    have hsublist : (before ++ behind).Sublist (before ++ first :: behind) :=
      List.Sublist.append_left (List.sublist_cons_self first behind) before
    calc c.applyAll ((before ++ first :: behind).map (·.1))
        = c.applyAll (before.map (·.1) ++ first.1 :: behind.map (·.1)) := by
          rw [List.map_append, List.map_cons]
      _ = (c.apply first.1).1.applyAll ((before ++ behind).map (·.1)) := by
          rw [applyAll_overtake h _ hapart, List.map_append]
          rfl
      _ = (c.apply first.1).1.applyAll (placed.map (·.1)) :=
          ih (h.apply first.1) hrest hothers (hkept.sublist hsublist)

/-- A reordered sequence of requests does what the sequence does. -/
theorem applyAll_of_reorders (h : c.Sound) {requests reordered : List Request}
    (hreorders : Reorders requests reordered) : c.applyAll reordered = c.applyAll requests := by
  obtain ⟨numbered, hperm, rfl, hkept⟩ := hreorders
  have hplaced : requests.zipIdx.Pairwise fun a b => a.2 < b.2 := by
    rw [← List.pairwise_map (R := (· < ·)), List.zipIdx_map_snd]
    exact List.pairwise_lt_range'
  rw [applyAll_of_numbered h hplaced hperm hkept, List.zipIdx_map_fst]

/-- **Requests that do not meet commute.** Let two requests have disjoint scopes.  On a reachable
    catalog they leave the same catalog in either order, with all its slots and all its keys
    of jobs and instances, and each has the same outcome first and second.  So a sequence of
    requests may be reordered without an effect on the catalog that it leaves, as long as of
    two requests whose scopes meet the earlier one still comes first. -/
theorem requests_commute (h : c.Reachable) :
    (∀ a b : Request, Disjoint a.scope b.scope →
      ((c.apply a).1.apply b).1 = ((c.apply b).1.apply a).1 ∧
        ((c.apply a).1.apply b).2 = (c.apply b).2 ∧ ((c.apply b).1.apply a).2 = (c.apply a).2) ∧
      ∀ requests reordered, Reorders requests reordered → c.applyAll reordered = c.applyAll requests := by
  have hsound := h.sound
  refine ⟨?_, ?_⟩
  · intro a b hdisjoint
    exact ⟨apply_comm hsound hdisjoint, outcome_of_disjoint hsound hdisjoint,
      outcome_of_disjoint hsound hdisjoint.symm⟩
  · intro requests reordered
    exact applyAll_of_reorders hsound

/-- A deletion of one instance overtakes a write to another of the same job, and neither a deletion
    of the whole job. -/
theorem requests_commute_siblings :
    let sibling := Request.delete ⟨"job", "one"⟩ .epoch
    let whole := Request.delete ⟨"job", ""⟩ .epoch
    Disjoint mixedWrite.scope sibling.scope ∧ ¬ Disjoint mixedWrite.scope whole.scope ∧
      ((wrongHeld.apply mixedWrite).1.apply sibling).2 = (wrongHeld.apply sibling).2 ∧
      wrongHeld.applyAll [sibling, mixedWrite, whole] = wrongHeld.applyAll [mixedWrite, sibling, whole] := by
  intro sibling whole
  have hreach : wrongHeld.Reachable := .apply .empty _
  have hapart : Disjoint mixedWrite.scope sibling.scope := by
    simp [Request.scope, Request.isDelete, Request.delete, mixedWrite, sibling]
  have hmeets : ¬ Disjoint mixedWrite.scope whole.scope := by
    simp [Request.scope, Request.isDelete, Request.delete, mixedWrite, whole]
  obtain ⟨hcommute, hreorder⟩ := requests_commute hreach
  refine ⟨hapart, hmeets, (hcommute mixedWrite sibling hapart).2.1, hreorder _ _ ?_⟩
  refine ⟨[(sibling, 1), (mixedWrite, 0), (whole, 2)], .swap _ _ _, rfl, ?_⟩
  simp [hapart.symm]

end Catalog

end MetricDepot
