/-!
# Sorted maps — finite maps in the byte order of their keys

A `SortedMap α` is a list of key–value pairs whose keys strictly ascend. The order of
text is the order of its code points, which is the order of its UTF-8 bytes, so every
listing of a map is already in the order in which the rest of the library writes it.

The view of a map is `get?`. Each operation has one equation through that view, and
`ext_get?` says that the view determines the map: two maps built by different histories
are equal as soon as they answer alike.
-/

namespace MetricDepot

-- ── Pairs found by their key ────────────────────────────────────────────────

section Lookup

variable {κ α : Type} [BEq κ] [LawfulBEq κ] [DecidableEq κ]

theorem lookup_cons_eq (e : κ × α) (l : List (κ × α)) (other : κ) :
    (e :: l).lookup other = if other = e.1 then some e.2 else l.lookup other := by
  rw [List.lookup_cons]
  by_cases h : other = e.1
  · rw [if_pos h, beq_iff_eq.mpr h]
  · rw [if_neg h, beq_eq_false_iff_ne.mpr h]

/-- Taking away the pairs of a key leaves nothing to be found under it, and all other keys alone. -/
theorem lookup_filter_ne (l : List (κ × α)) (key other : κ) :
    (l.filter (·.1 != key)).lookup other = if other = key then none else l.lookup other := by
  induction l with
  | nil => simp
  | cons e l ih =>
    by_cases hkey : e.1 = key
    · rw [List.filter_cons_of_neg (by simp [hkey]), ih, lookup_cons_eq, hkey]
      by_cases hother : other = key
      · rw [if_pos hother, if_pos hother]
      · rw [if_neg hother, if_neg hother, if_neg hother]
    · rw [List.filter_cons_of_pos (by simp [hkey]), lookup_cons_eq, lookup_cons_eq, ih]
      by_cases hother : other = e.1
      · rw [if_pos hother, if_pos hother, if_neg (hother ▸ hkey)]
      · rw [if_neg hother, if_neg hother]

end Lookup

/-- A finite map from texts to `α`, listed by strictly ascending key. -/
structure SortedMap (α : Type) where
  entries : List (String × α)
  ascending : entries.Pairwise (fun a b => a.1 < b.1)

namespace SortedMap

variable {α β : Type}

-- ── Operations on the listing ───────────────────────────────────────────────

/-- Puts a pair in front of the first greater key, in place of a pair of the same key. -/
def insertEntry (key : String) (value : α) : List (String × α) → List (String × α)
  | [] => [(key, value)]
  | (k, v) :: rest =>
      if key < k then (key, value) :: (k, v) :: rest
      else if key = k then (key, value) :: rest
      else (k, v) :: insertEntry key value rest

theorem mem_insertEntry {key : String} {value : α} {e : String × α} {l : List (String × α)}
    (h : e ∈ insertEntry key value l) : e = (key, value) ∨ e ∈ l := by
  induction l with
  | nil => simpa [insertEntry] using h
  | cons hd tl ih =>
    rw [insertEntry] at h
    split at h
    · exact List.mem_cons.mp h
    · split at h
      · exact (List.mem_cons.mp h).imp id (List.mem_cons_of_mem hd)
      · rcases List.mem_cons.mp h with rfl | h
        · exact Or.inr List.mem_cons_self
        · exact (ih h).imp id (List.mem_cons_of_mem hd)

theorem insertEntry_ascending (key : String) (value : α) {l : List (String × α)}
    (h : l.Pairwise (fun a b => a.1 < b.1)) :
    (insertEntry key value l).Pairwise (fun a b => a.1 < b.1) := by
  induction l with
  | nil => simp [insertEntry]
  | cons hd tl ih =>
    obtain ⟨hhd, htl⟩ := List.pairwise_cons.mp h
    rw [insertEntry]
    split
    next hlt =>
      refine List.pairwise_cons.mpr ⟨?_, h⟩
      intro e he
      rcases List.mem_cons.mp he with rfl | he
      · exact hlt
      · exact String.lt_trans hlt (hhd e he)
    next hnlt =>
      split
      next heq => exact List.pairwise_cons.mpr ⟨fun e he => heq ▸ hhd e he, htl⟩
      next hne =>
        refine List.pairwise_cons.mpr ⟨?_, ih htl⟩
        intro e he
        rcases mem_insertEntry he with rfl | he
        · exact Std.lt_of_le_of_ne (String.not_lt.mp hnlt) (Ne.symm hne)
        · exact hhd e he

-- ── The map ─────────────────────────────────────────────────────────────────

/-- The map without keys. -/
def empty : SortedMap α := ⟨[], List.Pairwise.nil⟩

instance : Inhabited (SortedMap α) := ⟨empty⟩

/-- The value under a key. -/
def get? (m : SortedMap α) (key : String) : Option α := m.entries.lookup key

/-- The map with `value` under `key`, whatever was there before. -/
def insert (m : SortedMap α) (key : String) (value : α) : SortedMap α :=
  ⟨insertEntry key value m.entries, insertEntry_ascending key value m.ascending⟩

/-- The map without `key`. -/
def erase (m : SortedMap α) (key : String) : SortedMap α :=
  ⟨m.entries.filter (fun e => e.1 != key), m.ascending.filter _⟩

/-- The map with every value changed by `f`, under the same keys. -/
def mapValues (f : α → β) (m : SortedMap α) : SortedMap β :=
  ⟨m.entries.map (fun e => (e.1, f e.2)), List.pairwise_map.mpr m.ascending⟩

/-- The map of a list of pairs, where of two pairs with one key the later counts. -/
def ofList (pairs : List (String × α)) : SortedMap α :=
  pairs.foldl (fun m e => m.insert e.1 e.2) empty

/-- The keys, ascending. -/
def keys (m : SortedMap α) : List String := m.entries.map (·.1)

/-- The values, in the order of their keys. -/
def values (m : SortedMap α) : List α := m.entries.map (·.2)

/-- The number of keys. -/
def size (m : SortedMap α) : Nat := m.entries.length

/-- Whether the map has no key. -/
def isEmpty (m : SortedMap α) : Bool := m.entries.isEmpty

/-- Whether a key is present. -/
def contains (m : SortedMap α) (key : String) : Bool := (m.get? key).isSome

/-- Two maps agree under `same` when they have the same keys and `same` values under them. -/
def agree (same : α → α → Bool) (m n : SortedMap α) : Bool :=
  m.size == n.size &&
    (m.entries.zip n.entries).all (fun (a, b) => a.1 == b.1 && same a.2 b.2)

-- ── The view of each operation ──────────────────────────────────────────────

theorem lookup_insertEntry_self (key : String) (value : α) (l : List (String × α)) :
    (insertEntry key value l).lookup key = some value := by
  induction l with
  | nil => exact List.lookup_cons_self
  | cons hd tl ih =>
    rw [insertEntry]
    split
    · exact List.lookup_cons_self
    · split
      · exact List.lookup_cons_self
      next hne => rw [lookup_cons_eq, if_neg hne, ih]

theorem lookup_insertEntry_ne {key other : String} (h : other ≠ key) (value : α)
    (l : List (String × α)) : (insertEntry key value l).lookup other = l.lookup other := by
  induction l with
  | nil => rw [insertEntry, lookup_cons_eq, if_neg h]
  | cons hd tl ih =>
    rw [insertEntry]
    split
    · rw [lookup_cons_eq, if_neg h]
    · split
      next heq => rw [lookup_cons_eq, lookup_cons_eq, if_neg h, if_neg (heq ▸ h)]
      next => rw [lookup_cons_eq, lookup_cons_eq, ih]

@[simp] theorem get?_empty (key : String) : (empty : SortedMap α).get? key = none := rfl

theorem get?_insert (m : SortedMap α) (key other : String) (value : α) :
    (m.insert key value).get? other = if other = key then some value else m.get? other := by
  split
  next h => subst h; exact lookup_insertEntry_self other value m.entries
  next h => exact lookup_insertEntry_ne h value m.entries

theorem get?_erase (m : SortedMap α) (key other : String) :
    (m.erase key).get? other = if other = key then none else m.get? other :=
  lookup_filter_ne m.entries key other

theorem get?_mapValues (f : α → β) (m : SortedMap α) (key : String) :
    (m.mapValues f).get? key = (m.get? key).map f := by
  show (m.entries.map fun e => (e.1, f e.2)).lookup key = (m.entries.lookup key).map f
  generalize m.entries = l
  induction l with
  | nil => rfl
  | cons hd tl ih =>
    rw [List.map_cons, lookup_cons_eq, lookup_cons_eq, ih]
    by_cases h : key = hd.1
    · rw [if_pos h, if_pos h, Option.map_some]
    · rw [if_neg h, if_neg h]

-- ── Membership and extensionality ───────────────────────────────────────────

theorem lookup_eq_some_iff_mem {l : List (String × α)}
    (h : l.Pairwise (fun a b => a.1 < b.1)) {key : String} {value : α} :
    l.lookup key = some value ↔ (key, value) ∈ l := by
  induction l with
  | nil => simp
  | cons hd tl ih =>
    obtain ⟨hhd, htl⟩ := List.pairwise_cons.mp h
    obtain ⟨k, v⟩ := hd
    rw [lookup_cons_eq]
    by_cases hk : key = k
    · subst hk
      have absent : ∀ w, (key, w) ∉ tl := fun w hw => String.lt_irrefl key (hhd _ hw)
      simp only [if_true, Option.some.injEq, List.mem_cons, Prod.mk.injEq, true_and]
      exact ⟨fun e => Or.inl e.symm, fun e => (e.resolve_right (absent value)).symm⟩
    · rw [if_neg hk, ih htl, List.mem_cons]
      exact ⟨Or.inr, fun e => e.resolve_left fun e => hk (congrArg Prod.fst e)⟩

/-- A pair is listed exactly when its value is found under its key. -/
theorem mem_entries_iff (m : SortedMap α) (key : String) (value : α) :
    (key, value) ∈ m.entries ↔ m.get? key = some value :=
  (lookup_eq_some_iff_mem m.ascending).symm

theorem eq_of_mem_iff {l r : List (String × α)}
    (hl : l.Pairwise (fun a b => a.1 < b.1)) (hr : r.Pairwise (fun a b => a.1 < b.1))
    (h : ∀ e, e ∈ l ↔ e ∈ r) : l = r := by
  induction l generalizing r with
  | nil =>
    cases r with
    | nil => rfl
    | cons e r => exact absurd ((h e).mpr List.mem_cons_self) (by simp)
  | cons a l ih =>
    cases r with
    | nil => exact absurd ((h a).mp List.mem_cons_self) (by simp)
    | cons b r =>
      obtain ⟨ha, hltail⟩ := List.pairwise_cons.mp hl
      obtain ⟨hb, hrtail⟩ := List.pairwise_cons.mp hr
      have hab : a = b := by
        rcases List.mem_cons.mp ((h a).mp List.mem_cons_self) with e | e
        · exact e
        rcases List.mem_cons.mp ((h b).mpr List.mem_cons_self) with e' | e'
        · exact e'.symm
        · exact absurd (String.lt_trans (hb a e) (ha b e')) (String.lt_irrefl _)
      subst hab
      refine congrArg (a :: ·) (ih hltail hrtail fun e => ⟨fun he => ?_, fun he => ?_⟩)
      · rcases List.mem_cons.mp ((h e).mp (List.mem_cons_of_mem a he)) with e' | e'
        · exact absurd (e' ▸ ha e he) (String.lt_irrefl _)
        · exact e'
      · rcases List.mem_cons.mp ((h e).mpr (List.mem_cons_of_mem a he)) with e' | e'
        · exact absurd (e' ▸ hb e he) (String.lt_irrefl _)
        · exact e'

/-- **The view determines the map.** Maps that answer alike under every key are equal. -/
theorem ext_get? {m n : SortedMap α} (h : ∀ key, m.get? key = n.get? key) : m = n := by
  obtain ⟨l, hl⟩ := m
  obtain ⟨r, hr⟩ := n
  have : l = r := eq_of_mem_iff hl hr fun e => by
    rw [← Prod.eta e, ← lookup_eq_some_iff_mem hl, ← lookup_eq_some_iff_mem hr]
    exact iff_of_eq (congrArg (· = some e.2) (h e.1))
  subst this
  rfl

instance [DecidableEq α] : DecidableEq (SortedMap α) := fun m n =>
  if h : m.entries = n.entries then
    isTrue (by obtain ⟨l, _⟩ := m; obtain ⟨r, _⟩ := n; cases h; rfl)
  else isFalse (fun e => h (congrArg entries e))

end SortedMap

end MetricDepot
