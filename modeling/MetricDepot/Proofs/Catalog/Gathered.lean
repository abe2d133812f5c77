import Mathlib.Data.List.Induction
import MetricDepot.Proofs.ByteOrder
import MetricDepot.Proofs.Catalog.Slots
import MetricDepot.Proofs.Checkpoint.Restored
/-!
# Gathering — one family for each name

    The merge comes by the slots in order and keeps what it has merged so far under each name,
    in the order in which the names came up.  What it keeps under a name is a function of the
    families that came under this name alone (`lookup_mergeAll`): the first, which fixes name,
    help and kind, and behind its own samples those of all later ones of its kind.  A family
    of another kind leaves everything as it was.

    In a sound catalog a family bears the name of its slot.  So what is gathered is one family
    without flaw for each name that is stored: `gather_merges_by_name`.
-/

namespace MetricDepot

/-- Whether a slot comes before another in the byte order of job, instance and name. -/
def Slot.Before (s t : Slot) : Prop :=
  Bytes.ofText s.group.job < Bytes.ofText t.group.job ∨ s.group.job = t.group.job ∧
    (Bytes.ofText s.group.inst < Bytes.ofText t.group.inst ∨ s.group.inst = t.group.inst ∧
      Bytes.ofText s.name < Bytes.ofText t.name)

theorem Slot.before_iff {s t : Slot} : s.Before t ↔ s.key < t.key := by
  rw [Slot.Before, Slot.key_lt, Bytes.ofText_lt_ofText, Bytes.ofText_lt_ofText, Bytes.ofText_lt_ofText]

-- ── Families of one name ────────────────────────────────────────────────────

namespace Family

variable {f g : Family} {others : List Family}

/-- The family with the samples of others behind its own, as far as they are of its kind. -/
def absorb (f : Family) (others : List Family) : Family :=
  { f with samples := f.samples ++ (others.filter (·.kind = f.kind)).flatMap (·.samples) }

@[simp] theorem absorb_nil (f : Family) : f.absorb [] = f := by
  simp [absorb]

/-- To absorb one more is to join it, or to leave all as it is if it is of another kind. -/
theorem join_absorb (f g : Family) (others : List Family) :
    (match (f.absorb others).join g with
      | .ok joined => joined
      | .error _ => f.absorb others) = f.absorb (others ++ [g]) := by
  rw [join]
  by_cases hkind : g.kind = f.kind
  · simp [absorb, hkind, List.filter_append]
  · simp [absorb, hkind, List.filter_append]

/-- A family without flaw that absorbs others without flaw and of its name has none. -/
theorem isValid_absorb (h : f.isValid = true)
    (hothers : ∀ g ∈ others, g.name = f.name ∧ g.isValid = true) : (f.absorb others).isValid = true := by
  rw [isValid_iff] at h ⊢
  refine ⟨h.1, ?_⟩
  intro s hs
  rcases List.mem_append.mp hs with hown | hother
  · exact h.2 s hown
  · obtain ⟨g, hg, hs⟩ := List.mem_flatMap.mp hother
    obtain ⟨hg, hkind⟩ := List.mem_filter.mp hg
    obtain ⟨hname, hvalid⟩ := hothers g hg
    have hflawless := (isValid_iff.mp hvalid).2 s hs
    rw [hname, of_decide_eq_true hkind] at hflawless
    exact hflawless

/-- What the families of one name come to. -/
def mergeOf? : List Family → Option Family
  | [] => none
  | f :: others => some (f.absorb others)

end Family

namespace Catalog

open Family

variable {c : Catalog} {name other : String} {f g : Family} {merged : List (String × Family)}
  {listing : List (Slot × Stored)}

-- ── One step of the merge ───────────────────────────────────────────────────

/-- A name stays in its place, and a new one comes last. -/
theorem keys_merge (name : String) (f : Family) (merged : List (String × Family)) :
    (merge name f merged).map (·.1) =
      if name ∈ merged.map (·.1) then merged.map (·.1) else merged.map (·.1) ++ [name] := by
  induction merged with
  | nil => rfl
  | cons e merged ih =>
    obtain ⟨n, g⟩ := e
    rw [merge]
    by_cases hname : n = name
    · rw [if_pos hname]
      split <;> simp [hname]
    · rw [if_neg hname, List.map_cons, ih]
      by_cases hmem : name ∈ merged.map (·.1)
      · simp [hmem]
      · simp [hmem, Ne.symm hname]

/-- Under its own name a family is joined to what is there; under all others nothing changes. -/
theorem lookup_merge (name other : String) (f : Family) (merged : List (String × Family)) :
    (merge name f merged).lookup other =
      if other = name then
        some (match merged.lookup name with
          | none => f
          | some g => match g.join f with
            | .ok joined => joined
            | .error _ => g)
      else merged.lookup other := by
  -- under another key the head of the list is passed by
  have pass : ∀ {key n : String} (g : Family) (rest : List (String × Family)), key ≠ n →
      ((n, g) :: rest).lookup key = rest.lookup key := by
    intro key n g rest hne
    rw [List.lookup_cons, beq_eq_false_iff_ne.mpr hne]
  induction merged with
  | nil =>
    rw [merge]
    by_cases hother : other = name
    · rw [hother, List.lookup_cons_self, if_pos rfl, List.lookup_nil]
    · rw [pass f [] hother, if_neg hother]
  | cons e merged ih =>
    obtain ⟨n, g⟩ := e
    rw [merge]
    by_cases hname : n = name
    · subst hname
      rw [if_pos rfl, List.lookup_cons_self]
      by_cases hother : other = n
      · subst hother
        rw [if_pos rfl]
        cases hjoin : g.join f <;> simp [hjoin]
      · rw [if_neg hother, pass g merged hother]
        cases g.join f <;> exact pass _ merged hother
    · rw [if_neg hname, pass g merged (Ne.symm hname)]
      by_cases hn : other = n
      · subst hn
        rw [List.lookup_cons_self, List.lookup_cons_self, if_neg hname]
      · rw [pass g _ hn, pass g merged hn, ih]

-- ── The whole merge ─────────────────────────────────────────────────────────

/-- The families of a listing, merged by the names of their slots. -/
def mergeAll (listing : List (Slot × Stored)) : List (String × Family) :=
  listing.foldl (fun merged e => merge e.1.name e.2.family merged) []

/-- The families that a listing has under a name. -/
def named (name : String) (listing : List (Slot × Stored)) : List Family :=
  (listing.filter (·.1.name = name)).map (·.2.family)

theorem mergeAll_concat (listing : List (Slot × Stored)) (e : Slot × Stored) :
    mergeAll (listing ++ [e]) = merge e.1.name e.2.family (mergeAll listing) := List.foldl_concat _ _ _ _

theorem gather_eq (c : Catalog) : c.gather = (mergeAll c.slots).map (·.2) := rfl

/-- The names come in the order in which they first occur. -/
theorem keys_mergeAll (listing : List (Slot × Stored)) :
    (mergeAll listing).map (·.1) = (listing.map (·.1.name)).eraseDups := by
  induction listing using List.reverseRecOn with
  | nil => rfl
  | append_singleton listing e ih =>
    rw [mergeAll_concat, keys_merge, ih, List.map_append, List.eraseDups_append]
    by_cases hmem : e.1.name ∈ listing.map (·.1.name)
    · simp only [List.mem_eraseDups, if_pos hmem]
      simp [List.removeAll, hmem]
    · simp only [List.mem_eraseDups, if_neg hmem]
      simp [List.removeAll, hmem, List.eraseDups_cons]

/-- No name is merged twice. -/
theorem nodup_keys_mergeAll (listing : List (Slot × Stored)) : ((mergeAll listing).map (·.1)).Nodup := by
  induction listing using List.reverseRecOn with
  | nil => exact List.nodup_nil
  | append_singleton listing e ih =>
    rw [mergeAll_concat, keys_merge]
    split
    · exact ih
    next hmem =>
      rw [List.nodup_append]
      refine ⟨ih, List.nodup_singleton _, ?_⟩
      rintro name hname other hother rfl
      rw [List.mem_singleton.mp hother] at hname
      exact hmem hname

/-- **What is merged under a name depends on the families of that name alone.** -/
theorem lookup_mergeAll (name : String) (listing : List (Slot × Stored)) :
    (mergeAll listing).lookup name = mergeOf? (named name listing) := by
  induction listing using List.reverseRecOn with
  | nil => rfl
  | append_singleton listing e ih =>
    rw [mergeAll_concat, lookup_merge, named, List.filter_append, List.map_append, ← named]
    by_cases hname : name = e.1.name
    · subst hname
      rw [if_pos rfl, ih]
      simp only [List.filter_cons, List.filter_nil, decide_true, if_true, List.map_cons, List.map_nil]
      cases named e.1.name listing with
      | nil => simp [mergeOf?]
      | cons first others =>
        rw [List.cons_append, mergeOf?, mergeOf?, ← join_absorb]
    · simp [hname, Ne.symm hname, ih]

theorem lookup_of_mem (h : (merged.map (·.1)).Nodup) (hmem : (name, f) ∈ merged) :
    merged.lookup name = some f := by
  obtain ⟨before, behind, rfl⟩ := List.append_of_mem hmem
  refine List.lookup_eq_some_iff.mpr ⟨before, behind, rfl, ?_⟩
  intro e he
  rw [List.map_append, List.map_cons] at h
  refine bne_iff_ne.mpr ?_
  intro heq
  exact (List.nodup_append.mp h).2.2 e.1 (List.mem_map.mpr ⟨e, he, rfl⟩) name List.mem_cons_self heq.symm

-- ── What is gathered ────────────────────────────────────────────────────────

/-- The slots of a listing whose families go into a merged one: those of its name and its kind. -/
def sources (f : Family) (listing : List (Slot × Stored)) : List (Slot × Stored) :=
  listing.filter fun e => e.1.name = f.name ∧ e.2.family.kind = f.kind

theorem sources_eq (f : Family) (listing : List (Slot × Stored)) :
    sources f listing = (listing.filter (·.1.name = f.name)).filter (·.2.family.kind = f.kind) := by
  rw [List.filter_filter, sources]
  refine List.filter_congr fun e _ => ?_
  rw [Bool.decide_and, Bool.and_comm]

/-- The samples of a family that absorbed others are those of the first and of its sources. -/
theorem samples_absorb (f : Family) (rest : List (Slot × Stored)) :
    (f.absorb (rest.map (·.2.family))).samples =
      f.samples ++ (rest.filter (·.2.family.kind = f.kind)).flatMap (·.2.family.samples) := by
  rw [absorb, List.filter_map, List.flatMap_map]
  rfl

/-- A merged family is the first of its name, which has absorbed the others. -/
theorem exists_first_of_mem_mergeAll (hnamed : ∀ e ∈ listing, e.2.family.name = e.1.name)
    (hmem : (name, f) ∈ mergeAll listing) :
    f.name = name ∧ ∃ before first behind, listing = before ++ first :: behind ∧
      (∀ e ∈ before, e.1.name ≠ name) ∧ first.1.name = name ∧
      f = first.2.family.absorb (named name behind) := by
  have hmerged : mergeOf? (named name listing) = some f := by
    rw [← lookup_mergeAll]
    exact lookup_of_mem (nodup_keys_mergeAll listing) hmem
  cases hfilter : listing.filter (·.1.name = name) with
  | nil =>
    rw [named, hfilter] at hmerged
    cases hmerged
  | cons first rest =>
    obtain ⟨before, behind, rfl, hbefore, hfirst, hrest⟩ := List.filter_eq_cons_iff.mp hfilter
    have hfirst : first.1.name = name := of_decide_eq_true hfirst
    have hf : f = first.2.family.absorb (named name behind) := by
      rw [named, hfilter, ← hrest] at hmerged
      exact (Option.some.inj hmerged).symm
    refine ⟨?_, before, first, behind, rfl, ?_, hfirst, hf⟩
    · rw [hf, ← hfirst]
      exact hnamed first (List.mem_append_right before List.mem_cons_self)
    · intro e he heq
      exact hbefore e he (decide_eq_true heq)

/-- Its samples are those of all slots of its name and its kind. -/
theorem samples_of_mem_mergeAll (hnamed : ∀ e ∈ listing, e.2.family.name = e.1.name)
    (hmem : (name, f) ∈ mergeAll listing) :
    f.samples = (sources f listing).flatMap (·.2.family.samples) := by
  obtain ⟨rfl, before, first, behind, rfl, hbefore, hfirst, hf⟩ :=
    exists_first_of_mem_mergeAll hnamed hmem
  have hkind : f.kind = first.2.family.kind := by
    rw [hf]
    rfl
  have hnone : before.filter (·.1.name = f.name) = [] := by
    rw [List.filter_eq_nil_iff]
    intro e he hname
    exact hbefore e he (of_decide_eq_true hname)
  have hsources : sources f (before ++ first :: behind) =
      first :: (behind.filter (·.1.name = f.name)).filter (·.2.family.kind = first.2.family.kind) := by
    rw [sources_eq, hkind, List.filter_append, hnone]
    simp [hfirst]
  rw [hsources, List.flatMap_cons, ← samples_absorb, ← named, ← hf]

/-- In a sound catalog families are named as their slots. -/
theorem Sound.name_eq (h : c.Sound) : ∀ e ∈ c.slots, e.2.family.name = e.1.name := by
  rintro ⟨s, stored⟩ he
  exact (h.stored s stored (mem_slots.mp he)).name

/-- In a sound catalog no family has a flaw. -/
theorem Sound.isValid (h : c.Sound) : ∀ e ∈ c.slots, e.2.family.isValid = true := by
  rintro ⟨s, stored⟩ he
  exact (h.stored s stored (mem_slots.mp he)).valid

/-- The families are gathered under the names they bear. -/
theorem Sound.keys_eq_names (h : c.Sound) : (mergeAll c.slots).map (·.1) = c.gather.map (·.name) := by
  rw [gather_eq, List.map_map]
  refine List.map_congr_left ?_
  rintro ⟨name, f⟩ hmem
  exact (exists_first_of_mem_mergeAll h.name_eq hmem).1.symm

/-- No flaw comes up by gathering. -/
theorem Sound.isValid_of_mem_mergeAll (h : c.Sound) (hmem : (name, f) ∈ mergeAll c.slots) :
    f.isValid = true := by
  obtain ⟨-, before, first, behind, hsplit, -, hfirst, rfl⟩ := exists_first_of_mem_mergeAll h.name_eq hmem
  have hlisted : ∀ e ∈ first :: behind, e ∈ c.slots := by
    intro e he
    rw [hsplit]
    exact List.mem_append_right before he
  have hmemfirst := hlisted first List.mem_cons_self
  refine isValid_absorb (h.isValid first hmemfirst) ?_
  intro g hg
  obtain ⟨e, he, rfl⟩ := List.mem_map.mp hg
  obtain ⟨hbehind, hother⟩ := List.mem_filter.mp he
  have hmemother := hlisted e (List.mem_cons_of_mem first hbehind)
  refine ⟨?_, h.isValid e hmemother⟩
  rw [h.name_eq e hmemother, of_decide_eq_true hother, h.name_eq first hmemfirst, hfirst]

/-- **What is gathered.** Let a catalog be reachable, and come by its slots in any order.  Put
    in the byte order of job, instance and name, and merged one after another, they give what
    is gathered.  There is one family for each stored name, in the order in which the names
    first occur.  It has no flaw; it is the family of the first slot of its name, but for the
    samples, which are those of all slots of its name whose kind is that of the first, slot
    after slot and each in its own order. -/
theorem gather_merges_by_name (h : c.Reachable) (hlisting : listing.Perm c.slots) :
    let sorted := inOrder listing
    sorted.Perm listing ∧ sorted.Pairwise (fun a b => a.1.Before b.1) ∧
      (mergeAll sorted).map (·.2) = c.gather ∧
      c.gather.map (·.name) = (sorted.map (·.1.name)).eraseDups ∧
      ∀ f ∈ c.gather, f.validated = .ok f ∧
        ∃ before first behind, sorted = before ++ first :: behind ∧
          (∀ e ∈ before, e.1.name ≠ f.name) ∧ first.1.name = f.name ∧
          f = { first.2.family with
            samples := (sorted.filter fun e =>
              e.1.name = f.name ∧ e.2.family.kind = first.2.family.kind).flatMap (·.2.family.samples) } := by
  intro sorted
  have hsound := h.sound
  have hsorted : sorted = c.slots := inOrder_of_perm hlisting
  rw [hsorted]
  refine ⟨hlisting.symm, ?_, rfl, ?_, ?_⟩
  · exact c.ascending_slots.imp Slot.before_iff.mpr
  · rw [← hsound.keys_eq_names, keys_mergeAll]
  · intro f hf
    rw [gather_eq] at hf
    obtain ⟨⟨name, f⟩, hmem, rfl⟩ := List.mem_map.mp hf
    refine ⟨validated_eq_ok_iff.mpr (hsound.isValid_of_mem_mergeAll hmem), ?_⟩
    have hsamples := samples_of_mem_mergeAll hsound.name_eq hmem
    obtain ⟨rfl, before, first, behind, hsplit, hbefore, hfirst, habsorbed⟩ :=
      exists_first_of_mem_mergeAll hsound.name_eq hmem
    have hkind : f.kind = first.2.family.kind := by
      rw [habsorbed]
      rfl
    refine ⟨before, first, behind, hsplit, hbefore, hfirst, ?_⟩
    rw [sources, hkind] at hsamples
    rw [← hsamples, habsorbed]
    rfl

/-- The one sample of a group in the catalog below. -/
def sampleFrom (job inst : String) (value : Value) : Sample :=
  ⟨SortedMap.ofList [("job", job), ("instance", inst)], value, none⟩

/-- A catalog in which one name is a gauge without samples in the first group, a counter in the
    second and again a gauge in the third, and in which another name comes up in between. -/
def mixedKinds : Catalog :=
  empty.applyAll
    [.push ⟨"web", "one"⟩ .epoch [⟨"up", "late", .gauge, [sampleFrom "web" "one" (.gauge ⟨1⟩)]⟩],
      .push ⟨"job", "two"⟩ .epoch
        [⟨"up", "", .counter, [sampleFrom "job" "two" (.counter ⟨2⟩)]⟩,
          ⟨"down", "", .counter, [sampleFrom "job" "two" (.counter ⟨3⟩)]⟩],
      .push ⟨"job", "one"⟩ .epoch [⟨"up", "first", .gauge, []⟩]]

/-- Whoever comes by the slots backwards gathers the same two families, and the counter has not
    kept the last group from joining the first. -/
theorem gather_mixedKinds :
    mixedKinds.Reachable ∧ mixedKinds.slots.reverse.Perm mixedKinds.slots ∧
      (mergeAll (inOrder mixedKinds.slots.reverse)).map (·.2) = mixedKinds.gather ∧
      (mixedKinds.gather.map (·.name)) = ["up", "down"] ∧
      mixedKinds.gather =
        [⟨"up", "first", .gauge, [sampleFrom "web" "one" (.gauge ⟨1⟩)]⟩,
          ⟨"down", "", .counter, [sampleFrom "job" "two" (.counter ⟨3⟩)]⟩] := by
  have hreach : mixedKinds.Reachable := .apply (.apply (.apply .empty _) _) _
  have hlisting : mixedKinds.slots.reverse.Perm mixedKinds.slots := List.reverse_perm _
  have hgather : mixedKinds.gather =
      [⟨"up", "first", .gauge, [sampleFrom "web" "one" (.gauge ⟨1⟩)]⟩,
        ⟨"down", "", .counter, [sampleFrom "job" "two" (.counter ⟨3⟩)]⟩] := by
    decide +kernel
  obtain ⟨-, -, hmerged, -⟩ := gather_merges_by_name hreach hlisting
  refine ⟨hreach, hlisting, hmerged, ?_, hgather⟩
  rw [hgather]
  rfl

end Catalog

end MetricDepot
