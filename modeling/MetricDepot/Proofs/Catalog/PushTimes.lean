import Mathlib.Order.Bounds.Defs
import MetricDepot.Proofs.Catalog.Writes
/-!
# Push times — when a group was last written

    The push time of a group is the latest receive time among what it holds.  What a slot holds
    was left there by the last request that wrote it, so the times are those of requests, and
    a request that was refused or has been deleted since leaves no time behind.

    Where the requests come in the order of their times, the last one that wrote anything to the
    group has the latest time, and its slots are held unless a later deletion clears the
    group: `pushTime_of_history`.
-/

namespace MetricDepot

-- ── Times ───────────────────────────────────────────────────────────────────

namespace ReceiveTime

instance : Std.IsLinearOrder ReceiveTime where
  le_refl a := Int.le_refl a.nanos
  le_trans _ _ _ := Int.le_trans
  le_antisymm _ _ hab hba := eq_of_nanos (Int.le_antisymm hab hba)
  le_total a b := Int.le_total a.nanos b.nanos

instance : Std.LawfulOrderMax ReceiveTime where
  max_le_iff a b c := by
    show (if a ≤ b then b else a) ≤ c ↔ a ≤ c ∧ b ≤ c
    split
    next hle => exact ⟨fun hc => ⟨Std.le_trans hle hc, hc⟩, And.right⟩
    next hnot =>
      have hge : b ≤ a := (Std.le_total (a := a) (b := b)).resolve_left hnot
      exact ⟨fun hc => ⟨hc, Std.le_trans hge hc⟩, And.left⟩
  max_eq_or a b := by
    show (if a ≤ b then b else a) = a ∨ (if a ≤ b then b else a) = b
    split
    · exact Or.inr rfl
    · exact Or.inl rfl

/-- Of two times the later one stays so when both are moved up to the epoch. -/
theorem max_epoch_le_max_epoch {a b : ReceiveTime} (h : a ≤ b) : max a epoch ≤ max b epoch :=
  Std.max_le_iff.mpr ⟨Std.le_trans h Std.left_le_max, Std.right_le_max⟩

end ReceiveTime

-- ── Writing and clearing ────────────────────────────────────────────────────

namespace Request

/-- A request writes a slot if it affects it and does not delete. -/
def Writes (r : Request) (s : Slot) : Prop := r.isDelete = false ∧ r.Affects s

/-- A request writes to its group if it reports a family as written, to whatever catalog. -/
def WritesTo (r : Request) (g : Group) : Prop :=
  r.group = g ∧ ∀ c : Catalog, 0 < (c.apply r).2.written

/-- A deletion clears its own group, and all groups of its job if it names no instance. -/
def Clears (r : Request) (g : Group) : Prop :=
  r.isDelete = true ∧ g.job = r.group.job ∧ (r.group.inst = "" ∨ g.inst = r.group.inst)

instance (r : Request) (g : Group) : Decidable (r.Clears g) :=
  inferInstanceAs (Decidable (r.isDelete = true ∧ g.job = r.group.job ∧
    (r.group.inst = "" ∨ g.inst = r.group.inst)))

/-- The time that a slot has from the last of some requests that writes it. -/
def WrittenAt (requests : List Request) (s : Slot) (time : ReceiveTime) : Prop :=
  ∃ before r behind, requests = before ++ r :: behind ∧ r.Writes s ∧
    (∀ later ∈ behind, ¬ later.Writes s) ∧ time = max r.received .epoch

variable {r : Request} {s : Slot} {g : Group}

/-- What affects a slot writes it or clears its group. -/
theorem affects_iff : r.Affects s ↔ r.Writes s ∨ r.Clears s.group := by
  obtain ⟨group, received, change⟩ := r
  cases change with
  | write families => simp [Writes, Clears, isDelete]
  | delete => simp [Writes, Clears, isDelete, Affects, Catalog.Covers]

/-- A request writes to a group if it writes one of its slots. -/
theorem writesTo_iff : r.WritesTo g ↔ ∃ s, s.group = g ∧ r.Writes s := by
  obtain ⟨group, received, change⟩ := r
  cases change with
  | delete =>
    constructor
    · rintro ⟨-, hwritten⟩
      cases hwritten .empty
    · rintro ⟨s, -, hnot, -⟩
      cases hnot
  | write families =>
    have hwritten : ∀ c : Catalog, (c.apply ⟨group, received, .write families⟩).2.written
        = families.entries.countP fun offer => group.Admits offer.1 offer.2 :=
      fun c => Catalog.written_write c group received families.entries
    constructor
    · rintro ⟨rfl, hsome⟩
      have hpos := hsome .empty
      rw [hwritten, List.countP_pos_iff] at hpos
      obtain ⟨⟨key, f⟩, hoffer, hadmits⟩ := hpos
      have hf : families.get? key = some f := (SortedMap.mem_entries_iff families key f).mp hoffer
      exact ⟨⟨group, key⟩, rfl, rfl, rfl, f, hf, of_decide_eq_true hadmits⟩
    · rintro ⟨s, rfl, -, hgroup, f, hf, hadmits⟩
      refine ⟨hgroup.symm, fun c => ?_⟩
      rw [hwritten, List.countP_pos_iff]
      exact ⟨(s.name, f), (SortedMap.mem_entries_iff families s.name f).mpr hf,
        decide_eq_true hadmits⟩

/-- What a request writes it leaves there, with its time. -/
theorem received_of_writes (h : r.Writes s) :
    ∃ stored, r.leaves s = some stored ∧ stored.received = max r.received .epoch := by
  obtain ⟨group, received, change⟩ := r
  obtain ⟨hnot, haffects⟩ := h
  cases change with
  | delete => cases hnot
  | write families =>
    obtain ⟨-, f, hf, -⟩ := haffects
    refine ⟨⟨max received .epoch, f.filter (·.belongs group)⟩, ?_, rfl⟩
    show (families.get? s.name).map _ = _
    rw [hf]
    rfl

/-- What clears a group leaves nothing in its slots. -/
theorem leaves_of_clears (h : r.Clears s.group) : r.leaves s = none := by
  obtain ⟨group, received, change⟩ := r
  cases change with
  | delete => rfl
  | write families => cases h.1

end Request

namespace Catalog

open Request

variable {requests before behind : List Request} {r : Request} {g : Group} {s : Slot} {stored : Stored}

-- ── What is held, and since when ────────────────────────────────────────────

theorem applyAll_append_cons (c : Catalog) (before : List Request) (r : Request)
    (behind : List Request) :
    c.applyAll (before ++ r :: behind) = ((c.applyAll before).apply r).1.applyAll behind :=
  applyAll_append c before (r :: behind)

/-- What a slot holds was written, and nothing has affected the slot since. -/
theorem written_of_held (h : (empty.applyAll requests).get? s = some stored) :
    ∃ before r behind, requests = before ++ r :: behind ∧ r.Writes s ∧
      (∀ later ∈ behind, ¬ later.Affects s) ∧ stored.received = max r.received .epoch := by
  rcases exists_last_affecting requests s with ⟨before, r, behind, rfl, haffects, hlast⟩ | hnone
  · rw [get?_applyAll_of_last empty before haffects hlast] at h
    rcases affects_iff.mp haffects with hwrites | hclears
    · obtain ⟨left, hleaves, hreceived⟩ := received_of_writes hwrites
      obtain rfl : left = stored := Option.some.inj (hleaves.symm.trans h)
      exact ⟨before, r, behind, rfl, hwrites, hlast, hreceived⟩
    · cases (leaves_of_clears hclears).symm.trans h
  · cases (get?_applyAll_of_unaffected empty hnone).symm.trans h

/-- So what a slot holds has the time of the last request that writes it. -/
theorem writtenAt_of_held (h : (empty.applyAll requests).get? s = some stored) :
    WrittenAt requests s stored.received := by
  obtain ⟨before, r, behind, hrequests, hwrites, hlast, hreceived⟩ := written_of_held h
  refine ⟨before, r, behind, hrequests, hwrites, ?_, hreceived⟩
  intro later hlater hlaterWrites
  exact hlast later hlater (affects_iff.mpr (Or.inl hlaterWrites))

/-- A slot that requests clear and do not write holds nothing after them. -/
theorem get?_of_cleared (c : Catalog) (hunwritten : ∀ r ∈ requests, ¬ r.Writes s)
    (hcleared : ∃ r ∈ requests, r.Clears s.group) : (c.applyAll requests).get? s = none := by
  rcases exists_last_affecting requests s with ⟨before, r, behind, rfl, haffects, hlast⟩ | hnone
  · rw [get?_applyAll_of_last c before haffects hlast]
    have hmem : r ∈ before ++ r :: behind := List.mem_append_right before List.mem_cons_self
    exact leaves_of_clears ((affects_iff.mp haffects).resolve_left (hunwritten r hmem))
  · obtain ⟨r, hr, hclears⟩ := hcleared
    exact absurd (affects_iff.mpr (Or.inr hclears)) (hnone r hr)

/-- A slot that is held has no time but that of the last request that writes it. -/
theorem received_of_writtenAt {time : ReceiveTime} (hwritten : WrittenAt requests s time)
    (h : (empty.applyAll requests).get? s = some stored) : stored.received = time := by
  obtain ⟨before, r, behind, rfl, hwrites, hlast, rfl⟩ := hwritten
  -- a later request that affected the slot would have cleared it for good
  have hunaffected : ∀ later ∈ behind, ¬ later.Affects s := by
    intro later hlater haffects
    have hclears := (affects_iff.mp haffects).resolve_left (hlast later hlater)
    rw [applyAll_append_cons, get?_of_cleared _ hlast ⟨later, hlater, hclears⟩] at h
    cases h
  obtain ⟨left, hleaves, hreceived⟩ := received_of_writes hwrites
  rw [get?_applyAll_of_last empty before (affects_iff.mpr (Or.inl hwrites)) hunaffected, hleaves] at h
  rw [← Option.some.inj h, hreceived]

-- ── The latest of the times that are held ───────────────────────────────────

/-- The receive times among what a group holds. -/
def timesOf (c : Catalog) (g : Group) : Set ReceiveTime :=
  {time | ∃ s stored, s.group = g ∧ c.get? s = some stored ∧ stored.received = time}

theorem mem_timesOf {c : Catalog} {time : ReceiveTime} :
    time ∈ c.timesOf g ↔
      ∃ names, c.names? g = some names ∧ time ∈ names.values.map (·.received) := by
  constructor
  · rintro ⟨s, stored, rfl, hheld, rfl⟩
    obtain ⟨names, hnames, hname⟩ := Option.bind_eq_some_iff.mp hheld
    refine ⟨names, hnames, List.mem_map.mpr ⟨stored, ?_, rfl⟩⟩
    exact List.mem_map.mpr ⟨(s.name, stored), (SortedMap.mem_entries_iff _ _ _).mpr hname, rfl⟩
  · rintro ⟨names, hnames, hmem⟩
    obtain ⟨stored, hvalue, rfl⟩ := List.mem_map.mp hmem
    obtain ⟨⟨name, stored⟩, hentry, rfl⟩ := List.mem_map.mp hvalue
    refine ⟨⟨g, name⟩, stored, rfl, ?_, rfl⟩
    rw [get?, hnames]
    exact (SortedMap.mem_entries_iff _ _ _).mp hentry

theorem pushTime?_eq_some_iff {c : Catalog} {time : ReceiveTime} :
    c.pushTime? g = some time ↔ IsGreatest (c.timesOf g) time := by
  constructor
  · intro h
    obtain ⟨names, hnames, hmax⟩ := Option.bind_eq_some_iff.mp h
    obtain ⟨hmem, hle⟩ := List.max?_eq_some_iff.mp hmax
    refine ⟨mem_timesOf.mpr ⟨names, hnames, hmem⟩, ?_⟩
    intro other hother
    obtain ⟨names', hnames', hmem'⟩ := mem_timesOf.mp hother
    obtain rfl : names = names' := Option.some.inj (hnames.symm.trans hnames')
    exact hle other hmem'
  · rintro ⟨hmem, hle⟩
    obtain ⟨names, hnames, hmem⟩ := mem_timesOf.mp hmem
    rw [pushTime?, hnames, Option.bind_some, List.max?_eq_some_iff]
    exact ⟨hmem, fun other hother => hle (mem_timesOf.mpr ⟨names, hnames, hother⟩)⟩

theorem pushTime?_eq_none_iff {c : Catalog} :
    c.pushTime? g = none ↔ ∀ s, s.group = g → c.get? s = none := by
  constructor
  · intro h s hgroup
    by_contra hheld
    obtain ⟨stored, hheld⟩ := Option.ne_none_iff_exists'.mp hheld
    obtain ⟨names, hnames, hmem⟩ := mem_timesOf.mp ⟨s, stored, hgroup, hheld, rfl⟩
    rw [pushTime?, hnames, Option.bind_some, List.max?_eq_none_iff] at h
    rw [h] at hmem
    exact List.not_mem_nil hmem
  · intro h
    cases htime : c.pushTime? g with
    | none => rfl
    | some time =>
      obtain ⟨⟨s, stored, hgroup, hheld, -⟩, -⟩ := pushTime?_eq_some_iff.mp htime
      cases (h s hgroup).symm.trans hheld

/-- What a group holds has the times of the requests that wrote it last. -/
theorem timesOf_applyAll (requests : List Request) (g : Group) :
    (empty.applyAll requests).timesOf g =
      {time | ∃ s, s.group = g ∧ ((empty.applyAll requests).get? s).isSome = true ∧
        WrittenAt requests s time} := by
  refine Set.ext fun time => ⟨?_, ?_⟩
  · rintro ⟨s, stored, hgroup, hheld, rfl⟩
    exact ⟨s, hgroup, Option.isSome_of_eq_some hheld, writtenAt_of_held hheld⟩
  · rintro ⟨s, hgroup, hsome, hwritten⟩
    obtain ⟨stored, hheld⟩ := Option.isSome_iff_exists.mp hsome
    exact ⟨s, stored, hgroup, hheld, received_of_writtenAt hwritten hheld⟩

-- ── Requests in the order of their times ────────────────────────────────────

/-- Nothing is held of a group to which nothing was written. -/
theorem pushTime?_of_unwritten (hunwritten : ∀ r ∈ requests, ¬ r.WritesTo g) :
    (empty.applyAll requests).pushTime? g = none := by
  refine pushTime?_eq_none_iff.mpr ?_
  intro s hgroup
  by_contra hheld
  obtain ⟨stored, hheld⟩ := Option.ne_none_iff_exists'.mp hheld
  obtain ⟨before, r, behind, rfl, hwrites, -⟩ := written_of_held hheld
  exact hunwritten r (List.mem_append_right before List.mem_cons_self)
    (writesTo_iff.mpr ⟨s, hgroup, hwrites⟩)

/-- Nothing is held of a group that requests clear and do not write to. -/
theorem pushTime?_of_cleared (c : Catalog) (hunwritten : ∀ r ∈ requests, ¬ r.WritesTo g)
    (hcleared : ∃ r ∈ requests, r.Clears g) : (c.applyAll requests).pushTime? g = none := by
  refine pushTime?_eq_none_iff.mpr ?_
  rintro s rfl
  refine get?_of_cleared c ?_ hcleared
  intro r hr hwrites
  exact hunwritten r hr (writesTo_iff.mpr ⟨s, rfl, hwrites⟩)

/-- Of requests in the order of their times the last that wrote to a group gives its push time, as
    long as the group is not cleared. -/
theorem pushTime?_of_last_write
    (hordered : (before ++ r :: behind).Pairwise (fun a b => a.received ≤ b.received))
    (hwritesTo : r.WritesTo g) (hlast : ∀ later ∈ behind, ¬ later.WritesTo g)
    (hkept : ∀ later ∈ behind, ¬ later.Clears g) :
    (empty.applyAll (before ++ r :: behind)).pushTime? g = some (max r.received .epoch) := by
  obtain ⟨s, rfl, hwrites⟩ := writesTo_iff.mp hwritesTo
  have hunaffected : ∀ later ∈ behind, ¬ later.Affects s := by
    intro later hlater haffects
    rcases affects_iff.mp haffects with hlaterWrites | hclears
    · exact hlast later hlater (writesTo_iff.mpr ⟨s, rfl, hlaterWrites⟩)
    · exact hkept later hlater hclears
  obtain ⟨left, hleaves, hreceived⟩ := received_of_writes hwrites
  have hheld : (empty.applyAll (before ++ r :: behind)).get? s = some left := by
    rw [get?_applyAll_of_last empty before (affects_iff.mpr (Or.inl hwrites)) hunaffected, hleaves]
  refine pushTime?_eq_some_iff.mpr ⟨⟨s, left, rfl, hheld, hreceived⟩, ?_⟩
  rintro _ ⟨t, stored, hgroup, htheld, rfl⟩
  obtain ⟨earlier, q, rest, hsplit, hqwrites, -, hqreceived⟩ := written_of_held htheld
  rw [hqreceived]
  refine ReceiveTime.max_epoch_le_max_epoch ?_
  -- who wrote any of the slots came before the last, or is the last
  have hq : q ∈ before ++ r :: behind := hsplit ▸ List.mem_append_right earlier List.mem_cons_self
  rcases List.mem_append.mp hq with hbefore | hhere
  · exact (List.pairwise_append.mp hordered).2.2 q hbefore r List.mem_cons_self
  · rcases List.mem_cons.mp hhere with rfl | hbehind
    · exact Std.le_refl _
    · exact absurd (writesTo_iff.mpr ⟨t, hgroup, hqwrites⟩) (hlast q hbehind)

/-- **The push time over a history.** After any requests, applied to the empty catalog, the push
    time of a group is the latest of the times that its slots have from the last requests that
    wrote them, over the slots that still hold something; each of these has such a time.
    There is no push time exactly when the group holds nothing.

    If the times of the requests never decrease, the push time is that of the last request that
    wrote anything to the group, moved up to the epoch, unless a later deletion cleared the
    group; then there is none, and there is none if nothing was ever written to it. -/
theorem pushTime_of_history (requests : List Request) (g : Group) :
    let c := empty.applyAll requests
    (∀ time, c.pushTime? g = some time ↔
        IsGreatest {time | ∃ s, s.group = g ∧ (c.get? s).isSome = true ∧ WrittenAt requests s time}
          time) ∧
      (∀ s, (c.get? s).isSome = true → ∃ time, WrittenAt requests s time) ∧
      (c.pushTime? g = none ↔ ∀ s, s.group = g → c.get? s = none) ∧
      (requests.Pairwise (fun a b => a.received ≤ b.received) →
        (∀ before r behind, requests = before ++ r :: behind → r.WritesTo g →
            (∀ later ∈ behind, ¬ later.WritesTo g) →
            c.pushTime? g =
              if ∃ later ∈ behind, later.Clears g then none else some (max r.received .epoch)) ∧
          ((∀ r ∈ requests, ¬ r.WritesTo g) → c.pushTime? g = none)) := by
  intro c
  refine ⟨?_, ?_, pushTime?_eq_none_iff, ?_⟩
  · intro time
    rw [pushTime?_eq_some_iff, timesOf_applyAll]
  · intro s hsome
    obtain ⟨stored, hheld⟩ := Option.isSome_iff_exists.mp hsome
    exact ⟨stored.received, writtenAt_of_held hheld⟩
  · intro hordered
    refine ⟨?_, pushTime?_of_unwritten⟩
    rintro before r behind rfl hwritesTo hlast
    split
    next hcleared =>
      show (empty.applyAll (before ++ r :: behind)).pushTime? g = none
      rw [applyAll_append_cons]
      exact pushTime?_of_cleared _ hlast hcleared
    next hkept =>
      refine pushTime?_of_last_write hordered hwritesTo hlast ?_
      intro later hlater hclears
      exact hkept ⟨later, hlater, hclears⟩

/-- A second after the epoch. -/
def firstSecond : ReceiveTime := ⟨1000000000, by decide, by decide⟩

/-- A write that is refused, since it comes under a key that is not its name. -/
def aliased : Request :=
  ⟨⟨"job", ""⟩, ⟨2000000000, by decide, by decide⟩,
    .write (SortedMap.ofList [("alias", ⟨"real", "", .gauge, []⟩)])⟩

/-- A write before the epoch, one a second after it, then the one that is refused and the deletion
    of another instance. -/
def twoWrites : List Request :=
  [.push ⟨"job", ""⟩ mixedWrite.received [⟨"up", "", .gauge, []⟩],
    .push ⟨"job", ""⟩ firstSecond [⟨"down", "", .gauge, []⟩], aliased,
    .delete ⟨"job", "one"⟩ aliased.received]

/-- Neither of the last two requests counts, but a deletion of the whole job would. -/
theorem pushTime_of_twoWrites :
    let cleared := twoWrites ++ [.delete ⟨"job", ""⟩ aliased.received]
    twoWrites.Pairwise (fun a b => a.received ≤ b.received) ∧
      (empty.applyAll twoWrites).pushTime? ⟨"job", ""⟩ = some firstSecond ∧
      cleared.Pairwise (fun a b => a.received ≤ b.received) ∧
      (empty.applyAll cleared).pushTime? ⟨"job", ""⟩ = none := by
  intro cleared
  have hordered : twoWrites.Pairwise (fun a b => a.received ≤ b.received) := by decide
  have hcleared : cleared.Pairwise (fun a b => a.received ≤ b.received) := by decide
  have hreported :
      0 < (empty.apply (.push ⟨"job", ""⟩ firstSecond [⟨"down", "", .gauge, []⟩])).2.written := by
    decide
  have hwrites : (Request.push ⟨"job", ""⟩ firstSecond [⟨"down", "", .gauge, []⟩]).WritesTo ⟨"job", ""⟩ :=
    ⟨rfl, fun _ => hreported⟩
  have hrefused : ¬ aliased.WritesTo ⟨"job", ""⟩ := fun h => absurd (h.2 .empty) (by decide)
  have hdeletes : ∀ g received, ¬ (Request.delete g received).WritesTo ⟨"job", ""⟩ :=
    fun g received h => absurd (h.2 .empty) (Nat.lt_irrefl 0)
  obtain ⟨htime, -⟩ := (pushTime_of_history twoWrites ⟨"job", ""⟩).2.2.2 hordered
  obtain ⟨hnone, -⟩ := (pushTime_of_history cleared ⟨"job", ""⟩).2.2.2 hcleared
  refine ⟨hordered, ?_, hcleared, ?_⟩
  · refine (htime [_] _ _ rfl hwrites ?_).trans (by decide)
    simp [hrefused, hdeletes]
  · refine (hnone [_] _ _ rfl hwrites ?_).trans (by decide)
    simp [hrefused, hdeletes]

end Catalog

end MetricDepot
