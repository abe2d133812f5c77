import MetricDepot.Catalog.Basic
import MetricDepot.Proofs.Family.Admitted
import MetricDepot.Proofs.SortedMap
/-!
# Soundness — what is true of every catalog

    A catalog is sound when no job and no group in it is empty, and when what it stores
    fits its slot: the family bears the name of the slot and has no flaw, its samples all
    belong to the group, and its time is not before the epoch.

    Writing keeps a catalog sound whatever is offered and in whatever order, since only what
    fits is put into a slot.  Deleting keeps it sound since a job goes with its last
    instance.  Since nothing in it is empty, a sound catalog is determined by its slots.
-/

namespace MetricDepot

/-- What may be stored in a slot. -/
structure Fits (s : Slot) (stored : Stored) : Prop where
  name : stored.family.name = s.name
  valid : stored.family.isValid = true
  belongs : ∀ sample ∈ stored.family.samples,
    sample.label "job" = s.group.job ∧ sample.label "instance" = s.group.inst
  received : ReceiveTime.epoch ≤ stored.received

namespace Catalog

/-- What is true of every catalog that a depot can hold. -/
structure Sound (c : Catalog) : Prop where
  jobs : ∀ job instances, c.jobs.get? job = some instances → instances.entries ≠ []
  groups : ∀ g names, c.names? g = some names → names.entries ≠ []
  stored : ∀ s stored, c.get? s = some stored → Fits s stored

-- ── Putting one family into a slot ──────────────────────────────────────────

theorem entries_insert_ne_nil {α : Type} (m : SortedMap α) (key : String) (value : α) :
    (m.insert key value).entries ≠ [] := by
  intro hnil
  have hfound : (m.insert key value).get? key = some value := by
    rw [SortedMap.get?_insert, if_pos rfl]
  rw [SortedMap.get?, hnil] at hfound
  cases hfound

theorem sound_empty : Sound .empty := by
  refine ⟨?_, ?_, ?_⟩
  · intro job instances h
    cases h
  · intro g names h
    cases h
  · intro s stored h
    cases h

/-- To put in what fits keeps a catalog sound. -/
theorem Sound.insert {c : Catalog} (h : Sound c) {s : Slot} {stored : Stored}
    (hfits : Fits s stored) : Sound (c.insert s stored) := by
  refine ⟨?_, ?_, ?_⟩
  · intro job instances hjob
    have hjob : (c.jobs.insert s.group.job _).get? job = some instances := hjob
    rw [SortedMap.get?_insert] at hjob
    split at hjob
    · rw [← Option.some.inj hjob]
      exact entries_insert_ne_nil _ _ _
    · exact h.jobs job instances hjob
  · intro g names hnames
    rw [names?_insert] at hnames
    split at hnames
    · rw [← Option.some.inj hnames]
      exact entries_insert_ne_nil _ _ _
    · exact h.groups g names hnames
  · intro t held hheld
    rw [get?_insert] at hheld
    split at hheld
    next heq =>
      rw [heq, ← Option.some.inj hheld]
      exact hfits
    next hne => exact h.stored t held hheld

-- ── Writing ─────────────────────────────────────────────────────────────────

/-- What a group takes under a key has that name, no flaw, and only samples that belong. -/
theorem judge_accepted {g : Group} {key : String} {f f' : Family}
    (h : (judge g key f).accepted = some f') :
    f'.name = key ∧ f'.isValid = true ∧ ∀ sample ∈ f'.samples, sample.belongs g = true := by
  rw [judge] at h
  split at h
  next hboth =>
    obtain ⟨rfl, hvalid⟩ := hboth
    obtain rfl := Family.eq_filter_of_admission h
    refine ⟨rfl, Family.isValid_filter _ hvalid, ?_⟩
    intro sample hsample
    exact (List.mem_filter.mp hsample).2
  next => cases h

theorem epoch_le_max (t : ReceiveTime) : ReceiveTime.epoch ≤ max t .epoch := by
  show ReceiveTime.epoch ≤ if t ≤ .epoch then .epoch else t
  split
  · exact Int.le_refl _
  next hnot => exact Int.le_of_lt (Int.not_le.mp hnot)

/-- What a group takes fits the slot under its key. -/
theorem fits_of_judge {g : Group} {key : String} {f f' : Family}
    (h : (judge g key f).accepted = some f') (received : ReceiveTime) :
    Fits ⟨g, key⟩ ⟨max received .epoch, f'⟩ := by
  obtain ⟨hname, hvalid, hbelongs⟩ := judge_accepted h
  exact ⟨hname, hvalid, fun sample hsample => Sample.belongs_iff.mp (hbelongs sample hsample),
    epoch_le_max received⟩

theorem Sound.foldl_insert {g : Group} {received : ReceiveTime} {accepted : List (String × Family)}
    (hfits : ∀ e ∈ accepted, Fits ⟨g, e.1⟩ ⟨received, e.2⟩) {c : Catalog} (h : Sound c) :
    Sound (accepted.foldl (fun c (key, f) => c.insert ⟨g, key⟩ ⟨received, f⟩) c) := by
  induction accepted generalizing c with
  | nil => exact h
  | cons e rest ih =>
    exact ih (fun e he => hfits e (List.mem_cons_of_mem _ he))
      (h.insert (hfits e List.mem_cons_self))

/-- Writing keeps a catalog sound, whatever is offered. -/
theorem Sound.write {c : Catalog} (h : Sound c) (g : Group) (received : ReceiveTime)
    (offered : List (String × Family)) : Sound (c.write g received offered).1 := by
  refine h.foldl_insert ?_
  intro e he
  obtain ⟨verdict, hverdict, haccepted⟩ := List.mem_filterMap.mp he
  obtain ⟨f', hf', rfl⟩ := Option.map_eq_some_iff.mp haccepted
  obtain ⟨offer, _, rfl⟩ := List.mem_map.mp hverdict
  exact fits_of_judge hf' received

-- ── Deleting ────────────────────────────────────────────────────────────────

/-- What is found in a map without a key was there before. -/
theorem get?_of_get?_erase {α : Type} {m : SortedMap α} {key other : String} {value : α}
    (h : (m.erase key).get? other = some value) : m.get? other = some value := by
  rw [SortedMap.get?_erase] at h
  split at h
  · cases h
  · exact h

/-- A catalog whose jobs hold no more than those of a sound one, and no empty job, is sound. -/
theorem Sound.shrink {c d : Catalog} (h : Sound c)
    (hjobs : ∀ job instances, d.jobs.get? job = some instances → instances.entries ≠ [] ∧
      ∃ more, c.jobs.get? job = some more ∧
        ∀ inst names, instances.get? inst = some names → more.get? inst = some names) :
    Sound d := by
  have hnames : ∀ g names, d.names? g = some names → c.names? g = some names := by
    intro g names hd
    obtain ⟨instances, hjob, hinst⟩ := Option.bind_eq_some_iff.mp hd
    obtain ⟨_, more, hmore, hless⟩ := hjobs g.job instances hjob
    exact Option.bind_eq_some_iff.mpr ⟨more, hmore, hless g.inst names hinst⟩
  refine ⟨?_, ?_, ?_⟩
  · intro job instances hjob
    exact (hjobs job instances hjob).1
  · intro g names hd
    exact h.groups g names (hnames g names hd)
  · intro s stored hd
    obtain ⟨names, hgroup, hslot⟩ := Option.bind_eq_some_iff.mp hd
    exact h.stored s stored (Option.bind_eq_some_iff.mpr ⟨names, hnames s.group names hgroup, hslot⟩)

theorem Sound.eraseJob {c : Catalog} (h : Sound c) (job : String) : Sound ⟨c.jobs.erase job⟩ := by
  refine h.shrink ?_
  intro other instances hother
  have hbefore := get?_of_get?_erase hother
  exact ⟨h.jobs other instances hbefore, instances, hbefore, fun _ _ hinst => hinst⟩

/-- Deleting keeps a catalog sound. -/
theorem Sound.remove {c : Catalog} (h : Sound c) (g : Group) : Sound (c.remove g).1 := by
  rw [Catalog.remove]
  split
  · exact h.eraseJob g.job
  · cases hjob : c.jobs.get? g.job with
    | none => exact h
    | some instances =>
      by_cases hempty : (instances.erase g.inst).isEmpty = true
      · simp only [if_pos hempty]
        exact h.eraseJob g.job
      · -- the job stays, with what is left of its instances
        simp only [if_neg hempty]
        refine h.shrink ?_
        intro other remaining hother
        have hother : (c.jobs.insert g.job (instances.erase g.inst)).get? other = some remaining := hother
        rw [SortedMap.get?_insert] at hother
        split at hother
        next heq =>
          rw [← Option.some.inj hother, heq]
          refine ⟨?_, instances, hjob, fun _ _ hinst => get?_of_get?_erase hinst⟩
          intro hnil
          exact hempty (List.isEmpty_iff.mpr hnil)
        next hne => exact ⟨h.jobs other remaining hother, remaining, hother, fun _ _ hinst => hinst⟩

-- ── Requests ────────────────────────────────────────────────────────────────

theorem Sound.apply {c : Catalog} (h : Sound c) (r : Request) : Sound (c.apply r).1 := by
  obtain ⟨group, received, change⟩ := r
  cases change with
  | write families => exact h.write group received families.entries
  | delete => exact h.remove group

theorem Sound.applyAll {c : Catalog} (h : Sound c) (requests : List Request) :
    Sound (c.applyAll requests) := by
  induction requests generalizing c with
  | nil => exact h
  | cons r requests ih => exact ih (h.apply r)

-- ── Slots determine the catalog ─────────────────────────────────────────────

/-- Sound catalogs whose slots hold the same are equal. -/
theorem Sound.ext {c d : Catalog} (hc : c.Sound) (hd : d.Sound) (h : ∀ s, c.get? s = d.get? s) :
    c = d := by
  have hnames : ∀ g, c.names? g = d.names? g := fun g =>
    SortedMap.eq_of_bind_get? (hc.groups g) (hd.groups g) fun name => h ⟨g, name⟩
  have hjobs : c.jobs = d.jobs := SortedMap.ext_get? fun job =>
    SortedMap.eq_of_bind_get? (hc.jobs job) (hd.jobs job) fun inst => hnames ⟨job, inst⟩
  obtain ⟨jobs⟩ := c
  exact congrArg Catalog.mk hjobs

end Catalog

end MetricDepot
