import MetricDepot.Proofs.Family.Written
import MetricDepot.Proofs.Json.SampleTexts
/-!
# Round trips — what the text of a family keeps

    Since every finite sample survives its text, a family is read back whatever the numbers in
    it are.  The text keeps all of the family but which of the NaNs its NaNs are, and a family
    without NaNs is read back as it is.
-/

namespace MetricDepot

open Json

-- ── Families without NaNs ───────────────────────────────────────────────────

theorem Binary64.canonical_of_not_isNaN {x : Binary64} (h : x.isNaN = false) : x.canonical = x := by
  rw [canonical, h, if_neg Bool.false_ne_true]

theorem Value.canonical_of_noNaN {v : Value} (h : ∀ x ∈ v.numbers, x.isNaN = false) :
    v.canonical = v := by
  have hnumber : ∀ x ∈ v.numbers, x.canonical = x := fun x hx => Binary64.canonical_of_not_isNaN (h x hx)
  cases v with
  | counter x | gauge x | untyped x => rw [canonical, hnumber x List.mem_cons_self]
  | summary n sum qs =>
    have hitem : ∀ q ∈ qs, q.canonical = q := by
      intro q hq
      have hmem : ∀ x ∈ [q.quantile, q.value], x ∈ (summary n sum qs).numbers := by
        intro x hx
        exact List.mem_cons_of_mem _ (List.mem_flatMap.mpr ⟨q, hq, hx⟩)
      rw [Quantile.canonical, hnumber _ (hmem _ (by simp)), hnumber _ (hmem _ (by simp))]
    rw [canonical, hnumber sum List.mem_cons_self, (List.map_congr_left hitem).trans (List.map_id qs)]
  | histogram n sum bs =>
    have hitem : ∀ b ∈ bs, b.canonical = b := by
      intro b hb
      rw [Bucket.canonical, hnumber _ (List.mem_cons_of_mem _ (List.mem_map_of_mem hb))]
    rw [canonical, hnumber sum List.mem_cons_self, (List.map_congr_left hitem).trans (List.map_id bs)]

/-- To merge the NaNs of a family changes nothing where there are none. -/
theorem Family.canonical_of_noNaN {f : Family} (h : ∀ x ∈ f.numbers, x.isNaN = false) :
    f.canonical = f := by
  have hsample : ∀ s ∈ f.samples, s.canonical = s := by
    intro s hs
    have hvalue : s.value.canonical = s.value :=
      Value.canonical_of_noNaN fun x hx => h x (List.mem_flatMap.mpr ⟨s, hs, hx⟩)
    rw [Sample.canonical, hvalue]
  rw [canonical, (List.map_congr_left hsample).trans (List.map_id f.samples)]

-- ── Round trips ─────────────────────────────────────────────────────────────

/-- **A family survives its text**, valid or not.  What is read is the family with its NaNs merged,
    so the family itself if it has none, and what was read has the same text again. -/
theorem Family.document_json (f : Family) :
    document (Family.read 0) f.json = .ok f.canonical ∧ f.canonical.json = f.json ∧
      ((∀ x ∈ f.numbers, x.isNaN = false) → f.canonical = f) := by
  have hreads : Reads (Family.read 0) f.json f.canonical :=
    Family.reads_json (by decide) fun x _ => survives_of_isFinite
  exact ⟨document_of_reads hreads, f.json_canonical, Family.canonical_of_noNaN⟩

end MetricDepot
