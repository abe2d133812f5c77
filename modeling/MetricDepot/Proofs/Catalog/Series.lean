import MetricDepot.Proofs.Catalog.Effects
import MetricDepot.Proofs.Catalog.Gathered
import MetricDepot.Proofs.Checkpoint.RoundTrip
/-!
# Series — no two samples of a family with the same labels

    Samples stand for one series when no label tells them apart, where an absent label reads
    as the empty text.  A merged family takes its samples from slots of one name, and all
    samples of a slot bear the job and the instance of the slot, also where one of them is
    empty and the label is absent.  So samples of one series come from one slot, and the merge
    makes no series twice: `gather_keeps_series_apart`.
-/

namespace MetricDepot

namespace Sample

/-- Two samples stand for one series if every label reads the same in both. -/
def SameSeries (a b : Sample) : Prop := ∀ name, a.label name = b.label name

/-- A label that a sample does not bear reads as the empty text. -/
theorem label_of_not_mem {a : Sample} {name : String} (h : name ∉ a.labels.keys) : a.label name = "" := by
  have habsent : a.labels.get? name = none := by
    refine Option.eq_none_iff_forall_ne_some.mpr ?_
    intro value hvalue
    exact h (List.mem_map.mpr ⟨(name, value), (SortedMap.mem_entries_iff _ _ _).mpr hvalue, rfl⟩)
  rw [label, habsent]
  rfl

theorem sameSeries_iff {a b : Sample} :
    a.SameSeries b ↔ ∀ name ∈ a.labels.keys ++ b.labels.keys, a.label name = b.label name := by
  constructor
  · intro h name _
    exact h name
  · intro h name
    by_cases hmem : name ∈ a.labels.keys ++ b.labels.keys
    · exact h name hmem
    · obtain ⟨ha, hb⟩ := not_or.mp (List.mem_append.not.mp hmem)
      rw [label_of_not_mem ha, label_of_not_mem hb]

instance (a b : Sample) : Decidable (a.SameSeries b) := decidable_of_iff _ sameSeries_iff.symm

end Sample

namespace Family

variable {f : Family}

/-- A family is distinct if no two of its samples stand for one series. -/
def Distinct (f : Family) : Prop := f.samples.Pairwise fun a b => ¬ a.SameSeries b

instance (f : Family) : Decidable f.Distinct :=
  inferInstanceAs (Decidable (f.samples.Pairwise fun a b => ¬ a.SameSeries b))

/-- Taking samples away makes no series twice. -/
theorem Distinct.filter (h : f.Distinct) (keep : Sample → Bool) : (f.filter keep).Distinct :=
  List.Pairwise.filter keep h

/-- To merge the NaNs of a family leaves its labels alone. -/
theorem Distinct.canonical (h : f.Distinct) : f.canonical.Distinct :=
  List.pairwise_map.mpr h

end Family

/-- The families that a request brings. -/
def Request.families (r : Request) : List Family :=
  match r.change with
  | .write families => families.values
  | .delete => []

namespace Catalog

variable {c d : Catalog} {f : Family} {bytes : Bytes}

-- ── Where samples come from ─────────────────────────────────────────────────

/-- The samples of a gathered family, place by place, each with the slot that it comes from. -/
def origins (c : Catalog) (f : Family) : List (Slot × Sample) :=
  (sources f c.slots).flatMap fun e => e.2.family.samples.map (e.1, ·)

/-- A sample comes from a slot that holds it, and has its name. -/
theorem mem_origins {s : Slot} {a : Sample} :
    (s, a) ∈ c.origins f ↔
      ∃ stored, c.get? s = some stored ∧ s.name = f.name ∧ stored.family.kind = f.kind ∧
        a ∈ stored.family.samples := by
  simp only [origins, sources, List.mem_flatMap, List.mem_filter, decide_eq_true_eq, List.mem_map]
  constructor
  · rintro ⟨⟨slot, stored⟩, ⟨hlisted, hname, hkind⟩, sample, hsample, heq⟩
    obtain ⟨rfl, rfl⟩ := Prod.mk.inj heq
    exact ⟨stored, mem_slots.mp hlisted, hname, hkind, hsample⟩
  · rintro ⟨stored, hheld, hname, hkind, hsample⟩
    exact ⟨(s, stored), ⟨mem_slots.mpr hheld, hname, hkind⟩, a, hsample, rfl⟩

/-- Every sample that is gathered has its origin. -/
theorem Sound.origins_eq (h : c.Sound) (hf : f ∈ c.gather) : (c.origins f).map (·.2) = f.samples := by
  rw [gather_eq] at hf
  obtain ⟨⟨name, f⟩, hmem, rfl⟩ := List.mem_map.mp hf
  rw [samples_of_mem_mergeAll h.name_eq hmem, origins, List.map_flatMap]
  refine List.flatMap_congr fun e _ => ?_
  rw [List.map_map]
  exact List.map_id _

/-- Samples of two slots of one name differ in the job or in the instance. -/
theorem Sound.slot_eq_of_sameSeries (h : c.Sound) {s t : Slot} {held stored : Stored} {a b : Sample}
    (hs : c.get? s = some held) (ht : c.get? t = some stored) (hname : s.name = t.name)
    (ha : a ∈ held.family.samples) (hb : b ∈ stored.family.samples) (hsame : a.SameSeries b) : s = t := by
  obtain ⟨hjob, hinst⟩ := (h.stored s held hs).belongs a ha
  obtain ⟨hjob', hinst'⟩ := (h.stored t stored ht).belongs b hb
  have hgroup : s.group = t.group := by
    rw [← (show (⟨s.group.job, s.group.inst⟩ : Group) = s.group from rfl), ← hjob, ← hinst,
      hsame "job", hsame "instance", hjob', hinst']
  obtain ⟨group, name⟩ := s
  obtain ⟨other, otherName⟩ := t
  obtain rfl : group = other := hgroup
  obtain rfl : name = otherName := hname
  rfl

/-- What is gathered of distinct families is distinct. -/
theorem Sound.distinct_of_mem_gather (h : c.Sound)
    (hdistinct : ∀ s stored, c.get? s = some stored → stored.family.Distinct) (hf : f ∈ c.gather) :
    f.Distinct := by
  rw [Family.Distinct, ← h.origins_eq hf, List.pairwise_map, origins, List.pairwise_flatMap]
  refine ⟨?_, ?_⟩
  · rintro ⟨s, stored⟩ hsource
    rw [List.pairwise_map]
    exact hdistinct s stored (mem_slots.mp (List.mem_filter.mp hsource).1)
  · have hslots : c.slots.Pairwise (fun e e' => e.1 ≠ e'.1) := List.pairwise_map.mp c.nodup_slots
    refine (hslots.filter _).imp_of_mem ?_
    rintro ⟨s, held⟩ ⟨t, stored⟩ hs ht hne
    obtain ⟨hs, hsname⟩ := List.mem_filter.mp hs
    obtain ⟨ht, htname⟩ := List.mem_filter.mp ht
    intro x hx y hy hsame
    obtain ⟨a, ha, rfl⟩ := List.mem_map.mp hx
    obtain ⟨b, hb, rfl⟩ := List.mem_map.mp hy
    have hname : s.name = t.name :=
      (of_decide_eq_true hsname).1.trans (of_decide_eq_true htname).1.symm
    exact hne (h.slot_eq_of_sameSeries (mem_slots.mp hs) (mem_slots.mp ht) hname ha hb hsame)

-- ── What came in ────────────────────────────────────────────────────────────

/-- The catalogs that come about when every family that comes in is distinct, whether a request
    writes it or a checkpoint holds it. -/
inductive ReachableDistinct : Catalog → Prop where
  | empty : ReachableDistinct .empty
  | decoded {bytes : Bytes} {c : Catalog} (h : Checkpoint.decode bytes = .ok c)
      (hdistinct : ∀ s stored, c.get? s = some stored → stored.family.Distinct) : ReachableDistinct c
  | apply {c : Catalog} (h : ReachableDistinct c) (r : Request)
      (hdistinct : ∀ f ∈ r.families, f.Distinct) : ReachableDistinct (c.apply r).1

theorem ReachableDistinct.reachable (h : c.ReachableDistinct) : c.Reachable := by
  induction h with
  | empty => exact .empty
  | decoded h _ => exact .decoded h
  | apply _ r _ ih => exact .apply ih r

/-- Where only distinct families come in, only distinct ones are stored. -/
theorem ReachableDistinct.distinct (h : c.ReachableDistinct) {s : Slot} {stored : Stored}
    (hheld : c.get? s = some stored) : stored.family.Distinct := by
  induction h generalizing stored with
  | empty => cases hheld
  | decoded _ hdistinct => exact hdistinct s stored hheld
  | @apply c _ r hdistinct ih =>
    by_cases haffects : r.Affects s
    · rw [get?_apply_of_affects c haffects, Request.leaves] at hheld
      cases hchange : r.change with
      | write families =>
        rw [hchange] at hheld
        obtain ⟨f, hf, rfl⟩ := Option.map_eq_some_iff.mp hheld
        refine (hdistinct f ?_).filter _
        rw [Request.families, hchange]
        exact List.mem_map.mpr ⟨(s.name, f), (SortedMap.mem_entries_iff _ _ _).mpr hf, rfl⟩
      | delete =>
        rw [hchange] at hheld
        cases hheld
    · rw [get?_apply_of_not_affects c haffects] at hheld
      exact ih hheld

/-- A catalog of which only distinct families came in is restored as one. -/
theorem ReachableDistinct.restored (h : c.ReachableDistinct) (hencode : Checkpoint.encode c = .ok bytes)
    (hnumbers : ∀ r ∈ Checkpoint.records c, ∀ x ∈ r.stored.family.numbers, x.isFinite = true →
      Json.Survives x)
    (hdecode : Checkpoint.decode bytes = .ok d) : d.ReachableDistinct := by
  obtain ⟨read, hread, htold⟩ := Checkpoint.decode_of_encode h.reachable.sound hencode hnumbers
  obtain rfl := Except.ok.inj (hread.symm.trans hdecode)
  refine .decoded hdecode ?_
  intro s stored hheld
  rw [htold s] at hheld
  obtain ⟨held, hbefore, rfl⟩ := Option.map_eq_some_iff.mp hheld
  exact (h.distinct hbefore).canonical

-- ── Series in what is gathered ──────────────────────────────────────────────

/-- **To gather makes no series twice.** Let a catalog be reachable.  No two families that are
    gathered have one name.  The samples of a gathered family are those of its origins, place
    by place, of which each is a slot of its name that holds the sample; and if two of the
    samples stand for one series, they come from one slot.  So if every family that came in
    was distinct, every family that is gathered is. -/
theorem gather_keeps_series_apart (h : c.Reachable) :
    (c.gather.map (·.name)).Nodup ∧
      (∀ f ∈ c.gather, (c.origins f).map (·.2) = f.samples ∧
        (∀ s a, (s, a) ∈ c.origins f →
          ∃ stored, c.get? s = some stored ∧ s.name = f.name ∧ a ∈ stored.family.samples) ∧
        ∀ s a t b, (s, a) ∈ c.origins f → (t, b) ∈ c.origins f → a.SameSeries b → s = t) ∧
      (c.ReachableDistinct → ∀ f ∈ c.gather, f.Distinct) := by
  have hsound := h.sound
  refine ⟨?_, ?_, ?_⟩
  · rw [← hsound.keys_eq_names]
    exact nodup_keys_mergeAll c.slots
  · intro f hf
    refine ⟨hsound.origins_eq hf, ?_, ?_⟩
    · intro s a hsample
      obtain ⟨stored, hheld, hname, -, hmem⟩ := mem_origins.mp hsample
      exact ⟨stored, hheld, hname, hmem⟩
    · intro s a t b hs ht hsame
      obtain ⟨held, hheld, hname, -, ha⟩ := mem_origins.mp hs
      obtain ⟨stored, hstored, hother, -, hb⟩ := mem_origins.mp ht
      exact hsound.slot_eq_of_sameSeries hheld hstored (hname.trans hother.symm) ha hb hsame
  · intro hdistinct f hf
    exact hsound.distinct_of_mem_gather (fun _ _ hheld => hdistinct.distinct hheld) hf

/-- A push of two samples to the instance of the empty name, and one to another instance, where
    a sample of the first instance comes along and is not taken. -/
def strayPushes : List Request :=
  [.push ⟨"job", ""⟩ .epoch
      [⟨"up", "", .gauge, [⟨SortedMap.ofList [("job", "job")], .gauge ⟨1⟩, none⟩,
        ⟨SortedMap.ofList [("job", "job"), ("path", "a")], .gauge ⟨2⟩, none⟩]⟩],
    .push ⟨"job", "one"⟩ .epoch
      [⟨"up", "", .gauge, [⟨SortedMap.ofList [("job", "job"), ("instance", "one")], .gauge ⟨3⟩, none⟩,
        ⟨SortedMap.ofList [("job", "job"), ("instance", "")], .gauge ⟨4⟩, none⟩]⟩]]

/-- The stray sample would have been a second one of the first series. -/
theorem gather_strayPushes :
    (empty.applyAll strayPushes).Reachable ∧ (empty.applyAll strayPushes).ReachableDistinct ∧
      ((empty.applyAll strayPushes).gather.map fun f => (f.name, f.size)) = [("up", 3)] ∧
      ((empty.applyAll strayPushes).gather.map fun f =>
          ((empty.applyAll strayPushes).origins f).map (·.1.group.inst)) = [["", "", "one"]] ∧
      ∀ f ∈ (empty.applyAll strayPushes).gather, f.Distinct := by
  have hpushed : ∀ r ∈ strayPushes, ∀ f ∈ r.families, f.Distinct := by decide +kernel
  have hdistinct : (empty.applyAll strayPushes).ReachableDistinct :=
    .apply (.apply .empty _ (hpushed _ (by simp [strayPushes]))) _ (hpushed _ (by simp [strayPushes]))
  obtain ⟨-, -, honce⟩ := gather_keeps_series_apart hdistinct.reachable
  exact ⟨hdistinct.reachable, hdistinct, by decide +kernel, by decide +kernel, honce hdistinct⟩

end Catalog

end MetricDepot
