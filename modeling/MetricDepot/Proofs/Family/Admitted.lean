import MetricDepot.Family.Admission
/-!
# Admitted families — what a group takes, as one rule

    Admission tells three cases apart by counting the samples that do not belong.  They come
    to one rule: a group takes a family, reduced to the samples that belong to it, unless
    the family has samples and none of them belongs (`accepted_admission`).

    Taking samples away makes no flaw, so what is admitted of a valid family is valid.
-/

namespace MetricDepot

variable {g : Group} {f f' : Family}

theorem Sample.belongs_iff {s : Sample} :
    s.belongs g = true ↔ s.label "job" = g.job ∧ s.label "instance" = g.inst := by
  rw [Sample.belongs, Bool.and_eq_true, beq_iff_eq, beq_iff_eq]

namespace Family

/-- A family of which every sample is kept is the family itself. -/
theorem filter_eq_self {keep : Sample → Bool} (h : ∀ s ∈ f.samples, keep s = true) :
    f.filter keep = f := by
  rw [filter, List.filter_eq_self.mpr h]

/-- **The rule of admission.** -/
theorem accepted_admission (g : Group) (f : Family) :
    (f.admission g).accepted =
      if f.samples = [] ∨ ∃ s ∈ f.samples, s.belongs g = true then some (f.filter (·.belongs g))
      else none := by
  simp only [admission]
  by_cases hnone : f.samples.countP (!·.belongs g) = 0
  · have hall : ∀ s ∈ f.samples, s.belongs g = true := by
      intro s hs
      simpa using List.countP_eq_zero.mp hnone s hs
    have hsome : f.samples = [] ∨ ∃ s ∈ f.samples, s.belongs g = true := by
      cases hsamples : f.samples with
      | nil => exact Or.inl rfl
      | cons s rest =>
        refine Or.inr ⟨s, List.mem_cons_self, hall s ?_⟩
        rw [hsamples]
        exact List.mem_cons_self
    rw [if_pos hnone, if_pos hsome, filter_eq_self hall]
  · rw [if_neg hnone]
    have hne : f.samples ≠ [] := by
      intro hnil
      rw [hnil] at hnone
      exact hnone rfl
    by_cases hfull : f.samples.countP (!·.belongs g) = f.samples.length
    · have hnobody : ∀ s ∈ f.samples, ¬ s.belongs g = true := by
        intro s hs
        simpa using List.countP_eq_length.mp hfull s hs
      rw [if_pos hfull, if_neg]
      rintro (hnil | ⟨s, hs, hbelongs⟩)
      · exact hne hnil
      · exact hnobody s hs hbelongs
    · -- some are left out, but not all
      have hsome : ∃ s ∈ f.samples, s.belongs g = true := by
        rcases Classical.em (∃ s ∈ f.samples, s.belongs g = true) with hyes | hno
        · exact hyes
        · refine absurd (List.countP_eq_length.mpr ?_) hfull
          intro s hs
          have : ¬ s.belongs g = true := fun hbelongs => hno ⟨s, hs, hbelongs⟩
          simpa using this
      rw [if_neg hfull, if_pos (Or.inr hsome)]

/-- What is admitted is the family with the samples that belong. -/
theorem eq_filter_of_admission (h : (f.admission g).accepted = some f') :
    f' = f.filter (·.belongs g) := by
  rw [accepted_admission] at h
  split at h
  · exact (Option.some.inj h).symm
  · cases h

/-- A family has no flaw when its name is a metric name and none of its samples has one. -/
theorem isValid_iff :
    f.isValid = true ↔ isMetricName f.name = true ∧ ∀ s ∈ f.samples, s.flaw? f.name f.kind = none := by
  rw [isValid, Option.isNone_iff_eq_none, flaw?]
  split
  next hname => simp [hname]
  next hname => simp [hname]

theorem validated_eq_ok_iff : f.validated = .ok f ↔ f.isValid = true := by
  rw [validated, isValid]
  cases f.flaw? <;> simp

/-- Taking samples away makes no flaw. -/
theorem isValid_of_subset {kept : List Sample} (hkept : kept ⊆ f.samples) (h : f.isValid = true) :
    isValid { f with samples := kept } = true := by
  obtain ⟨hname, hsamples⟩ := isValid_iff.mp h
  exact isValid_iff.mpr ⟨hname, fun s hs => hsamples s (hkept hs)⟩

theorem isValid_filter (keep : Sample → Bool) (h : f.isValid = true) : (f.filter keep).isValid = true :=
  isValid_of_subset (fun _ hs => (List.mem_filter.mp hs).1) h

/-- What is rejected are the samples that do not belong. -/
theorem rejected_admission (g : Group) (f : Family) :
    (f.admission g).rejected = f.samples.countP (!·.belongs g) := by
  simp only [admission]
  split
  · rfl
  · split <;> rfl

/-- Nothing is rejected exactly when every sample belongs. -/
theorem rejected_eq_zero_iff :
    (f.admission g).rejected = 0 ↔
      ∀ s ∈ f.samples, s.label "job" = g.job ∧ s.label "instance" = g.inst := by
  rw [rejected_admission, List.countP_eq_zero]
  refine forall₂_congr fun s _ => ?_
  rw [← Sample.belongs_iff, Bool.not_eq_true, Bool.not_eq_false']

/-- A family of which nothing is rejected is admitted as it is. -/
theorem admission_of_rejected (h : (f.admission g).rejected = 0) : f.admission g = ⟨some f, 0⟩ := by
  rw [rejected_admission] at h
  simp only [admission, h, if_true]

end Family

end MetricDepot
