import MetricDepot.SortedMap
/-!
# Listings — maps and their lists of pairs

    A map is its listing: to insert the pairs of the listing one after another, each behind
    all before it, gives the map again.  To insert what is there or to erase what is not
    gives it again, too.  Under different keys the order of insertions does not matter.  A map
    that is not empty shows in what is found under some key.
-/

namespace MetricDepot.SortedMap

variable {α : Type}

-- ── Operations without effect ───────────────────────────────────────────────

/-- To insert what is there changes nothing. -/
theorem insert_eq_self {m : SortedMap α} {key : String} {value : α} (h : m.get? key = some value) :
    m.insert key value = m := by
  refine ext_get? ?_
  intro other
  rw [get?_insert]
  split
  next heq => rw [heq, h]
  next => rfl

/-- To erase what is not there changes nothing. -/
theorem erase_eq_self {m : SortedMap α} {key : String} (h : m.get? key = none) : m.erase key = m := by
  refine ext_get? ?_
  intro other
  rw [get?_erase]
  split
  next heq => rw [heq, h]
  next => rfl

-- ── Two keys ────────────────────────────────────────────────────────────────

/-- Under two keys values can be put in either order. -/
theorem insert_comm {key other : String} (h : key ≠ other) (m : SortedMap α) (value value' : α) :
    (m.insert key value).insert other value' = (m.insert other value').insert key value := by
  refine ext_get? ?_
  intro k
  simp only [get?_insert]
  by_cases hother : k = other
  · rw [if_pos hother, if_neg (fun hkey => h (hkey.symm.trans hother)), if_pos hother]
  · rw [if_neg hother, if_neg hother]

theorem contains_insert (m : SortedMap α) (key other : String) (value : α) :
    (m.insert key value).contains other = (decide (other = key) || m.contains other) := by
  rw [contains, get?_insert]
  split
  next heq => rw [decide_eq_true heq, Bool.true_or, Option.isSome_some]
  next hne => rw [decide_eq_false hne, Bool.false_or, contains]

-- ── Listings ────────────────────────────────────────────────────────────────

/-- A pair of a greater key goes behind all others. -/
theorem insertEntry_of_lt {key : String} {value : α} {l : List (String × α)}
    (h : ∀ e ∈ l, e.1 < key) : insertEntry key value l = l ++ [(key, value)] := by
  induction l with
  | nil => rfl
  | cons e l ih =>
    have he : e.1 < key := h e List.mem_cons_self
    have hnlt : ¬ key < e.1 := fun hlt => String.lt_irrefl key (String.lt_trans hlt he)
    have hne : key ≠ e.1 := fun heq => String.lt_irrefl key (heq ▸ he)
    rw [insertEntry, if_neg hnlt, if_neg hne, ih (fun e he => h e (List.mem_cons_of_mem _ he))]
    rfl

theorem entries_foldl_insert {l : List (String × α)} {m : SortedMap α}
    (h : (m.entries ++ l).Pairwise (fun a b => a.1 < b.1)) :
    (l.foldl (fun m e => m.insert e.1 e.2) m).entries = m.entries ++ l := by
  induction l generalizing m with
  | nil => exact (List.append_nil _).symm
  | cons e l ih =>
    have hlast : (m.insert e.1 e.2).entries = m.entries ++ [e] := by
      refine insertEntry_of_lt fun a ha => ?_
      exact (List.pairwise_append.mp h).2.2 a ha e List.mem_cons_self
    have hrest : ((m.insert e.1 e.2).entries ++ l).Pairwise (fun a b => a.1 < b.1) := by
      rw [hlast, List.append_assoc]
      exact h
    rw [List.foldl_cons, ih hrest, hlast, List.append_assoc]
    rfl

/-- A map is the map of its listing. -/
theorem ofList_entries (m : SortedMap α) : ofList m.entries = m := by
  have hentries : (ofList m.entries).entries = m.entries := entries_foldl_insert m.ascending
  obtain ⟨l, hl⟩ := m
  cases h : ofList l with
  | mk r hr =>
    rw [h] at hentries
    cases hentries
    rfl

-- ── Maps that are there or not ──────────────────────────────────────────────

theorem exists_get?_of_ne_nil {m : SortedMap α} (h : m.entries ≠ []) :
    ∃ key value, m.get? key = some value := by
  obtain ⟨e, he⟩ := List.exists_mem_of_ne_nil _ h
  exact ⟨e.1, e.2, (mem_entries_iff m e.1 e.2).mp he⟩

/-- Whether there is a map, and which, shows in what is found in it, unless it is empty. -/
theorem eq_of_bind_get? {a b : Option (SortedMap α)} (ha : ∀ m, a = some m → m.entries ≠ [])
    (hb : ∀ m, b = some m → m.entries ≠ [])
    (h : ∀ key, a.bind (·.get? key) = b.bind (·.get? key)) : a = b := by
  cases a with
  | none =>
    cases b with
    | none => rfl
    | some n =>
      obtain ⟨key, value, hfound⟩ := exists_get?_of_ne_nil (hb n rfl)
      cases (h key).trans hfound
  | some m =>
    cases b with
    | none =>
      obtain ⟨key, value, hfound⟩ := exists_get?_of_ne_nil (ha m rfl)
      cases (h key).symm.trans hfound
    | some n => rw [ext_get? h]

end MetricDepot.SortedMap
