import MetricDepot.Proofs.Checkpoint.RoundTrip
import MetricDepot.Proofs.SortedMap
/-!
# Requests — what they do to the slots

    A deletion empties the slots that it covers and no others; a write fills slots of its
    group, whatever they held.  Neither looks at the families that are there.  So requests
    cannot tell apart two catalogs whose slots hold the same but for the NaNs in them, which
    `Alike` says of two catalogs, and leave such catalogs alike.

    A request that reports no change has changed nothing: `apply_eq_self`.
-/

namespace MetricDepot

-- ── NaNs that are merged ────────────────────────────────────────────────────

theorem Value.canonical_canonical (v : Value) : v.canonical.canonical = v.canonical := by
  have hquantile : Quantile.canonical ∘ Quantile.canonical = Quantile.canonical :=
    funext fun q => by simp [Quantile.canonical]
  have hbucket : Bucket.canonical ∘ Bucket.canonical = Bucket.canonical :=
    funext fun b => by simp [Bucket.canonical]
  cases v with
  | counter | gauge | untyped => simp [Value.canonical]
  | summary => simp [Value.canonical, hquantile]
  | histogram => simp [Value.canonical, hbucket]

/-- To merge the NaNs once more changes nothing. -/
theorem Stored.canonical_canonical (s : Stored) : s.canonical.canonical = s.canonical := by
  have hsample : Sample.canonical ∘ Sample.canonical = Sample.canonical :=
    funext fun sample => by simp [Sample.canonical, Value.canonical_canonical]
  simp [Stored.canonical, Family.canonical, hsample]

-- ── Requests without effect ─────────────────────────────────────────────────

namespace Catalog

variable {c d : Catalog}

theorem remove_eq_self (h : c.Sound) {g : Group} (hquiet : (c.remove g).2 = false) :
    (c.remove g).1 = c := by
  rw [Catalog.remove] at hquiet ⊢
  split
  next hjob =>
    rw [if_pos hjob] at hquiet
    show (⟨c.jobs.erase g.job⟩ : Catalog) = c
    rw [SortedMap.erase_eq_self (Option.isSome_eq_false_iff.mp hquiet |> Option.isNone_iff_eq_none.mp)]
  next hinst =>
    rw [if_neg hinst] at hquiet
    cases hjob : c.jobs.get? g.job with
    | none => rfl
    | some instances =>
      rw [hjob] at hquiet
      dsimp only at hquiet ⊢
      have habsent : instances.get? g.inst = none :=
        Option.isNone_iff_eq_none.mp (Option.isSome_eq_false_iff.mp hquiet)
      have hkept : ¬ instances.isEmpty = true := by
        intro hempty
        exact h.jobs g.job instances hjob (List.isEmpty_iff.mp hempty)
      rw [SortedMap.erase_eq_self habsent, if_neg hkept, SortedMap.insert_eq_self hjob]

/-- A request that reports no change has changed nothing. -/
theorem apply_eq_self (h : c.Sound) {r : Request} (hquiet : (c.apply r).2.changed = false) :
    (c.apply r).1 = c := by
  obtain ⟨group, received, change⟩ := r
  cases change with
  | delete => exact remove_eq_self h hquiet
  | write families =>
    show (c.write group received families.entries).1 = c
    have hquiet : (!List.isEmpty _) = false := hquiet
    rw [Bool.not_eq_false', List.isEmpty_iff] at hquiet
    rw [Catalog.write]
    dsimp only
    rw [hquiet]
    rfl

/-- Requests of which none would change a catalog leave it as it is, all together. -/
theorem applyAll_eq_self (h : c.Sound) {requests : List Request}
    (hquiet : ∀ r ∈ requests, (c.apply r).2.changed = false) : c.applyAll requests = c := by
  induction requests with
  | nil => rfl
  | cons r requests ih =>
    show (c.apply r).1.applyAll requests = c
    rw [apply_eq_self h (hquiet r List.mem_cons_self)]
    exact ih fun r hr => hquiet r (List.mem_cons_of_mem _ hr)

-- ── Deleting, seen from the slots ───────────────────────────────────────────

/-- A deletion covers the slots of its instance, or of its whole job. -/
def Covers (g : Group) (s : Slot) : Prop := s.group.job = g.job ∧ (g.inst = "" ∨ s.group.inst = g.inst)

instance (g : Group) (s : Slot) : Decidable (Covers g s) :=
  inferInstanceAs (Decidable (s.group.job = g.job ∧ (g.inst = "" ∨ s.group.inst = g.inst)))

theorem get?_eraseJob (c : Catalog) (job : String) (s : Slot) :
    (⟨c.jobs.erase job⟩ : Catalog).get? s = if s.group.job = job then none else c.get? s := by
  show (((c.jobs.erase job).get? s.group.job).bind (·.get? s.group.inst)).bind (·.get? s.name) = _
  rw [SortedMap.get?_erase]
  split
  next => rfl
  next => rfl

theorem get?_insertJob (c : Catalog) (job : String) (instances : SortedMap (SortedMap Stored))
    (s : Slot) :
    (⟨c.jobs.insert job instances⟩ : Catalog).get? s =
      if s.group.job = job then (instances.get? s.group.inst).bind (·.get? s.name) else c.get? s := by
  show (((c.jobs.insert job instances).get? s.group.job).bind (·.get? s.group.inst)).bind _ = _
  rw [SortedMap.get?_insert]
  split
  next => rfl
  next => rfl

/-- A deletion empties the slots that it covers, and no others. -/
theorem get?_remove (c : Catalog) (g : Group) (s : Slot) :
    (c.remove g).1.get? s = if Covers g s then none else c.get? s := by
  obtain ⟨⟨job, inst⟩, name⟩ := s
  rw [Catalog.remove]
  by_cases hall : g.inst = ""
  · rw [if_pos hall, get?_eraseJob]
    simp only [Covers, hall, true_or, and_true]
  · rw [if_neg hall]
    cases hjob : c.jobs.get? g.job with
    | none =>
      -- the job is absent, so what is covered held nothing
      dsimp only
      split
      next hcovers =>
        obtain ⟨rfl, -⟩ := hcovers
        rw [get?, names?, hjob]
        rfl
      next => rfl
    | some instances =>
      have hslot : ∀ inst, (instances.erase g.inst).get? inst =
          if inst = g.inst then none else instances.get? inst := SortedMap.get?_erase instances g.inst
      have hheld : c.get? ⟨⟨g.job, inst⟩, name⟩ = (instances.get? inst).bind (·.get? name) := by
        rw [get?, names?, hjob]
        rfl
      dsimp only
      by_cases hempty : (instances.erase g.inst).isEmpty = true
      · -- the job goes with its last instance, which was the one to be deleted
        rw [if_pos hempty, get?_eraseJob]
        have hlast : ∀ inst, (instances.erase g.inst).get? inst = none := by
          intro inst
          rw [SortedMap.get?, List.isEmpty_iff.mp hempty]
          rfl
        by_cases hother : job = g.job
        · subst hother
          rw [if_pos rfl]
          split
          next => rfl
          next hcovers =>
            have hinst : inst ≠ g.inst := fun heq => hcovers ⟨rfl, Or.inr heq⟩
            have hnone := hlast inst
            rw [hslot, if_neg hinst] at hnone
            rw [hheld, hnone]
            rfl
        · rw [if_neg hother, if_neg (fun hcovers => hother hcovers.1)]
      · rw [if_neg hempty, get?_insertJob]
        by_cases hother : job = g.job
        · subst hother
          rw [if_pos rfl, hslot, hheld]
          by_cases hinst : inst = g.inst
          · rw [if_pos hinst, if_pos ⟨rfl, Or.inr hinst⟩]
            rfl
          · rw [if_neg hinst, if_neg]
            rintro ⟨-, hcovers⟩
            exact hcovers.elim hall hinst
        · rw [if_neg hother, if_neg (fun hcovers => hother hcovers.1)]

-- ── Catalogs that are alike ─────────────────────────────────────────────────

/-- The same slots hold families that were received at the same times and are the same but for
    their NaNs, which count as one. -/
def Alike (c d : Catalog) : Prop :=
  ∀ s, (c.get? s).map Stored.canonical = (d.get? s).map Stored.canonical

namespace Alike

/-- A catalog in which the NaNs are merged is like the one from which it comes. -/
theorem of_canonical (h : ∀ s, d.get? s = (c.get? s).map Stored.canonical) : Alike d c := by
  intro s
  rw [h, Option.map_map]
  congr 1
  exact funext Stored.canonical_canonical

theorem insert (h : Alike c d) (s : Slot) (stored : Stored) :
    Alike (c.insert s stored) (d.insert s stored) := by
  intro t
  rw [get?_insert, get?_insert]
  split
  next => rfl
  next => exact h t

theorem foldl_insert (h : Alike c d) {g : Group} {received : ReceiveTime}
    (accepted : List (String × Family)) :
    Alike (accepted.foldl (fun c (key, f) => c.insert ⟨g, key⟩ ⟨received, f⟩) c)
      (accepted.foldl (fun c (key, f) => c.insert ⟨g, key⟩ ⟨received, f⟩) d) := by
  induction accepted generalizing c d with
  | nil => exact h
  | cons e rest ih => exact ih (h.insert _ _)

theorem remove (h : Alike c d) (g : Group) : Alike (c.remove g).1 (d.remove g).1 := by
  intro s
  rw [get?_remove, get?_remove]
  split
  next => rfl
  next => exact h s

/-- No request tells apart catalogs that are alike. -/
theorem apply (h : Alike c d) (r : Request) : Alike (c.apply r).1 (d.apply r).1 := by
  obtain ⟨group, received, change⟩ := r
  cases change with
  | write families => exact h.foldl_insert _
  | delete => exact h.remove group

/-- Requests leave alike what was alike. -/
theorem applyAll (h : Alike c d) (requests : List Request) :
    Alike (c.applyAll requests) (d.applyAll requests) := by
  induction requests generalizing c d with
  | nil => exact h
  | cons r requests ih => exact ih (h.apply r)

end Alike

end Catalog

end MetricDepot
