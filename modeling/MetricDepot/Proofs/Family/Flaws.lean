import MetricDepot.Proofs.ByteOrder
import MetricDepot.Proofs.Family.Admitted
import MetricDepot.Proofs.Family.Names
/-!
# Flaws — what validation finds, and where it need not look again

    A family is well formed when its name is a metric name, all its labels have label names and
    all its samples are of its kind.  Of a family that is not, one flaw is reported: its name,
    or else that of the first sample with one, and of a sample the least bad label, or else the
    kind.  `Reports` says which, without a word about how the family is searched.

    Neither to take samples out of a family nor to put two families of one kind together makes
    a flaw.  So what is built in this way from validated families validates, with no check made
    on the way.
-/

namespace MetricDepot

/-- The first text with a property among ascending ones is the least. -/
theorem find?_eq_some_iff_least {l : List String} (hl : l.Pairwise (· < ·)) {p : String → Bool}
    {a : String} :
    l.find? p = some a ↔ a ∈ l ∧ p a = true ∧ ∀ b ∈ l, p b = true → b ≠ a → a < b := by
  have hleast : ∀ {a}, l.find? p = some a → ∀ b ∈ l, p b = true → b ≠ a → a < b := by
    intro a ha b hb hp hne
    obtain ⟨-, before, behind, rfl, hbefore⟩ := List.find?_eq_some_iff_append.mp ha
    rcases List.mem_append.mp hb with hb | hb
    · have hnot := hbefore b hb
      rw [hp] at hnot
      cases hnot
    · have hbehind := (List.pairwise_cons.mp (List.pairwise_append.mp hl).2.1).1
      exact hbehind b ((List.mem_cons.mp hb).resolve_left hne)
  constructor
  · intro h
    exact ⟨List.mem_of_find?_eq_some h, List.find?_some h, hleast h⟩
  · rintro ⟨hmem, hp, hbelow⟩
    obtain ⟨b, hb⟩ := Option.isSome_iff_exists.mp (List.find?_isSome.mpr ⟨a, hmem, hp⟩)
    by_cases heq : b = a
    · rw [hb, heq]
    · exact absurd (hbelow b (List.mem_of_find?_eq_some hb) (List.find?_some hb) heq)
        (lt_asymm (hleast hb a hmem hp (Ne.symm heq)))

-- ── Samples ─────────────────────────────────────────────────────────────────

namespace Sample

variable {family : String} {kind : Kind} {s : Sample} {flaw : Flaw}

/-- A sample that may stand in a family of a kind. -/
structure WellFormed (kind : Kind) (s : Sample) : Prop where
  labels : ∀ label ∈ s.labels.keys, label.toList ∈ labelNames
  kind : s.value.kind = kind

/-- What is reported of a sample: the least of its bad labels in byte order, and its kind only if
    it has none. -/
inductive Reports (family : String) (kind : Kind) (s : Sample) : Flaw → Prop where
  | label {label : String} (present : label ∈ s.labels.keys) (bad : label.toList ∉ labelNames)
      (least : ∀ other ∈ s.labels.keys, other.toList ∉ labelNames → other ≠ label →
        Bytes.ofText label < Bytes.ofText other) :
      Reports family kind s (.badLabel family label)
  | kind (labels : ∀ label ∈ s.labels.keys, label.toList ∈ labelNames)
      (differs : s.value.kind ≠ kind) :
      Reports family kind s (.kindMismatch family kind s.value.kind)

theorem ascending_labels (s : Sample) : s.labels.keys.Pairwise (· < ·) :=
  List.pairwise_map.mpr s.labels.ascending

theorem find?_label_eq_none_iff :
    s.labels.keys.find? (!isLabelName ·) = none ↔ ∀ label ∈ s.labels.keys, label.toList ∈ labelNames := by
  rw [List.find?_eq_none]
  refine forall₂_congr fun label _ => ?_
  rw [Bool.not_eq_true', Bool.not_eq_false, isLabelName_iff]

theorem find?_label_eq_some_iff {label : String} :
    s.labels.keys.find? (!isLabelName ·) = some label ↔
      label ∈ s.labels.keys ∧ label.toList ∉ labelNames ∧
        ∀ other ∈ s.labels.keys, other.toList ∉ labelNames → other ≠ label →
          Bytes.ofText label < Bytes.ofText other := by
  simp only [find?_eq_some_iff_least s.ascending_labels, Bool.not_eq_true', Bool.eq_false_iff, ne_eq,
    isLabelName_iff, Bytes.ofText_lt_ofText]

/-- A sample without flaw is well formed. -/
theorem flaw?_eq_none_iff : s.flaw? family kind = none ↔ s.WellFormed kind := by
  rw [flaw?]
  split
  next label hlabel =>
    obtain ⟨hmem, hbad, -⟩ := find?_label_eq_some_iff.mp hlabel
    refine ⟨nofun, fun h => absurd (h.labels label hmem) hbad⟩
  next hlabels =>
    have hlabels := find?_label_eq_none_iff.mp hlabels
    split
    next hkind => exact ⟨fun _ => ⟨hlabels, hkind⟩, fun _ => rfl⟩
    next hkind => exact ⟨nofun, fun h => absurd h.kind hkind⟩

/-- The flaw of a sample is the one that is to be reported. -/
theorem flaw?_eq_some_iff : s.flaw? family kind = some flaw ↔ s.Reports family kind flaw := by
  constructor
  · intro h
    rw [flaw?] at h
    split at h
    next label hlabel =>
      obtain ⟨hmem, hbad, hleast⟩ := find?_label_eq_some_iff.mp hlabel
      rw [← Option.some.inj h]
      exact .label hmem hbad hleast
    next hlabels =>
      split at h
      · cases h
      next hkind =>
        rw [← Option.some.inj h]
        exact .kind (find?_label_eq_none_iff.mp hlabels) hkind
  · intro h
    rw [flaw?]
    cases h with
    | label present bad least => rw [find?_label_eq_some_iff.mpr ⟨present, bad, least⟩]
    | kind labels differs => rw [find?_label_eq_none_iff.mpr labels, if_neg differs]

end Sample

-- ── Families ────────────────────────────────────────────────────────────────

namespace Family

variable {f g fg : Family} {flaw : Flaw}

/-- A family with nothing to report. -/
structure WellFormed (f : Family) : Prop where
  name : f.name.toList ∈ metricNames
  samples : ∀ s ∈ f.samples, s.WellFormed f.kind

/-- What is reported of a family: its name if it is bad, and otherwise the flaw of the first sample
    that has one. -/
inductive Reports (f : Family) : Flaw → Prop where
  | name (bad : f.name.toList ∉ metricNames) : Reports f (.badName f.name)
  | sample {before behind : List Sample} {s : Sample} {flaw : Flaw} (name : f.name.toList ∈ metricNames)
      (split : f.samples = before ++ s :: behind) (first : ∀ t ∈ before, t.WellFormed f.kind)
      (flawed : s.Reports f.name f.kind flaw) : Reports f flaw

theorem isValid_iff_wellFormed : f.isValid = true ↔ f.WellFormed := by
  rw [isValid_iff, isMetricName_iff]
  simp only [Sample.flaw?_eq_none_iff]
  exact ⟨fun ⟨name, samples⟩ => ⟨name, samples⟩, fun ⟨name, samples⟩ => ⟨name, samples⟩⟩

/-- The flaw of a family is the one that is to be reported. -/
theorem flaw?_eq_some_iff : f.flaw? = some flaw ↔ f.Reports flaw := by
  rw [flaw?]
  split
  next hname =>
    have hname := isMetricName_iff.mp hname
    rw [List.findSome?_eq_some_iff]
    constructor
    · rintro ⟨before, s, behind, hsplit, hflaw, hfirst⟩
      exact .sample hname hsplit (fun t ht => Sample.flaw?_eq_none_iff.mp (hfirst t ht))
        (Sample.flaw?_eq_some_iff.mp hflaw)
    · intro h
      cases h with
      | name bad => exact absurd hname bad
      | sample name split first flawed =>
        exact ⟨_, _, _, split, Sample.flaw?_eq_some_iff.mpr flawed,
          fun t ht => Sample.flaw?_eq_none_iff.mpr (first t ht)⟩
  next hname =>
    have hname : f.name.toList ∉ metricNames := fun hmem => hname (isMetricName_iff.mpr hmem)
    constructor
    · intro h
      rw [← Option.some.inj h]
      exact .name hname
    · intro h
      cases h with
      | name => rfl
      | sample name => exact absurd name hname

theorem validated_eq_error_iff : f.validated = .error flaw ↔ f.Reports flaw := by
  rw [← flaw?_eq_some_iff, validated]
  cases f.flaw? <;> simp

-- ── Joining ─────────────────────────────────────────────────────────────────

theorem join_of_kind_eq (h : f.kind = g.kind) :
    f.join g = .ok { f with samples := f.samples ++ g.samples } := by
  rw [join, if_pos h.symm]

theorem join_of_kind_ne (h : f.kind ≠ g.kind) : f.join g = .error (.kindMismatch f.name f.kind g.kind) := by
  rw [join, if_neg h.symm]

/-- Families without flaw that can be joined have none together, whatever the second was called. -/
theorem isValid_join (hf : f.isValid = true) (hg : g.isValid = true) (h : f.join g = .ok fg) :
    fg.isValid = true := by
  rw [isValid_iff_wellFormed] at hf hg ⊢
  by_cases hkind : f.kind = g.kind
  · rw [join_of_kind_eq hkind] at h
    rw [← Except.ok.inj h]
    refine ⟨hf.name, ?_⟩
    intro s hs
    rcases List.mem_append.mp hs with hs | hs
    · exact hf.samples s hs
    · exact hkind ▸ hg.samples s hs
  · rw [join_of_kind_ne hkind] at h
    cases h

-- ── What is built of validated families ─────────────────────────────────────

/-- What comes of validated families by taking samples out, admitting to groups and joining.  What
    is asked of one sample may depend on those before it, and then the samples that are left
    are some of the family's in their order, and no more is known of them (`thinned`). -/
inductive Derived : Family → Prop where
  | validated {f : Family} (h : f.validated = .ok f) : Derived f
  | filtered {f : Family} (keep : Sample → Bool) (hf : Derived f) : Derived (f.filter keep)
  | thinned {f : Family} {kept : List Sample} (hf : Derived f) (h : kept.Sublist f.samples) :
      Derived { f with samples := kept }
  | admitted {f f' : Family} (g : Group) (hf : Derived f) (h : (f.admission g).accepted = some f') :
      Derived f'
  | joined {f g fg : Family} (hf : Derived f) (hg : Derived g) (h : f.join g = .ok fg) : Derived fg

/-- None of the operations makes a flaw. -/
theorem Derived.isValid (h : Derived f) : f.isValid = true := by
  induction h with
  | validated h => exact validated_eq_ok_iff.mp h
  | filtered keep _ ih => exact isValid_filter keep ih
  | thinned _ h ih => exact isValid_of_subset h.subset ih
  | admitted g _ h ih =>
    rw [eq_filter_of_admission h]
    exact isValid_filter _ ih
  | joined _ _ h ihf ihg => exact isValid_join ihf ihg h

/-- **Validation is exact, and needs no repetition.** A family validates just if it is well formed,
    and if it is not, what is reported is settled: the name, or the first sample's least bad
    label or kind.  What is built of validated families validates.  To join two families fails
    just if their kinds differ, and otherwise puts the samples of the second behind those of
    the first. -/
theorem validation_exact (f : Family) :
    (f.validated = .ok f ↔ f.WellFormed) ∧
    (¬ f.WellFormed → ∃ flaw, f.validated = .error flaw) ∧
    (∀ flaw, f.validated = .error flaw ↔ f.Reports flaw) ∧
    (Derived f → f.validated = .ok f) ∧
    ∀ g : Family, ((∃ flaw, f.join g = .error flaw) ↔ f.kind ≠ g.kind) ∧
      (f.kind = g.kind → f.join g = .ok { f with samples := f.samples ++ g.samples }) := by
  refine ⟨?_, ?_, ?_, ?_, ?_⟩
  · rw [validated_eq_ok_iff, isValid_iff_wellFormed]
  · intro h
    rw [← isValid_iff_wellFormed, isValid, Option.isNone_iff_eq_none] at h
    obtain ⟨flaw, hflaw⟩ := Option.ne_none_iff_exists'.mp h
    exact ⟨flaw, validated_eq_error_iff.mpr (flaw?_eq_some_iff.mp hflaw)⟩
  · exact fun flaw => validated_eq_error_iff
  · exact fun h => validated_eq_ok_iff.mpr h.isValid
  · refine fun g => ⟨⟨?_, fun h => ⟨_, join_of_kind_ne h⟩⟩, join_of_kind_eq⟩
    rintro ⟨flaw, hjoin⟩ hkind
    rw [join_of_kind_eq hkind] at hjoin
    cases hjoin

/-- A family with a gauge for each of some jobs. -/
def gauges (jobs : List String) : Family :=
  ⟨"up:total", "", .gauge, jobs.map fun job => ⟨SortedMap.ofList [("job", job)], .gauge ⟨0⟩, none⟩⟩

/-- The gauges that a group admitted and joined to others validate.  Of a sample behind them that is
    a counter and has two bad labels, the lesser label is reported. -/
theorem validation_exact_gauges :
    (gauges ["web", "mail", "web"]).validated = .ok (gauges ["web", "mail", "web"]) ∧
      Reports { gauges ["web"] with samples := (gauges ["web"]).samples ++
        [⟨SortedMap.ofList [("é", ""), ("job", "web"), ("0th", "")], .counter ⟨0⟩, none⟩] }
        (.badLabel "up:total" "0th") ∧
      (gauges ["web"]).join (gauges ["mail", "web"]) = .ok (gauges ["web", "mail", "web"]) := by
  have hadmitted : Derived (gauges ["web"]) := by
    refine .admitted ⟨"web", ""⟩ (.validated (f := gauges ["web", "mail"]) ?_) ?_
    · decide +kernel
    · decide +kernel
  have hothers : Derived (gauges ["mail", "web"]) := .validated (by decide +kernel)
  have hjoin : (gauges ["web"]).join (gauges ["mail", "web"]) = .ok (gauges ["web", "mail", "web"]) :=
    ((validation_exact (gauges ["web"])).2.2.2.2 (gauges ["mail", "web"])).2 rfl
  refine ⟨?_, ?_, hjoin⟩
  · exact (validation_exact (gauges ["web", "mail", "web"])).2.2.2.1 (.joined hadmitted hothers hjoin)
  · refine ((validation_exact _).2.2.1 _).mp ?_
    decide +kernel

end Family

end MetricDepot
