import MetricDepot.Proofs.Json.Numbers
/-!
# Trees — values that are read whole are read back

    A value that is read as a tree goes two ways: the text is read as a tree, and the tree is
    taken apart.  `Shows room read text x` says that both together give `x`, where the tree
    has room for so many containers.  As with documents that go by, an array shows its items
    and an object is folded as its members show.
-/

namespace MetricDepot.Json

variable {α β σ : Type}

-- ── Reading trees ───────────────────────────────────────────────────────────

/-- How much room a tree has matters only to its containers. -/
theorem tree_eq_treeWith (room : Nat) : ∃ container, tree room = treeWith container := by
  cases room with
  | zero => exact ⟨fail, rfl⟩
  | succ room => exact ⟨container (tree room), rfl⟩

/-- A text is read as a tree that is a text. -/
theorem reads_tree_text (room : Nat) (text : String) :
    Reads (tree room) (quoted text) (.text text) := by
  obtain ⟨container, htree⟩ := tree_eq_treeWith room
  intro rest hrest
  rw [htree, treeWith, show quoted text ++ rest = Ascii.quote :: _ from rfl,
    bind_of_ok (peek_cons rfl _), if_pos rfl]
  exact (reads_string text).map Tree.text rest hrest

/-- A finite number is read as a tree that is a number. -/
theorem reads_tree_number (room : Nat) {text : Bytes} {n : Numeral}
    (h : numeral? text = some (n, [])) (hfinite : n.toBinary64?.isSome = true) :
    Reads (tree room) text (.number n) := by
  obtain ⟨container, htree⟩ := tree_eq_treeWith room
  have hnumeral : Reads finiteNumeral text n := by
    refine (reads_numeral h).bind_pure fun rest => ?_
    rw [if_pos hfinite]
    rfl
  intro rest hrest
  have hread := hnumeral.map Tree.number rest hrest
  obtain ⟨b, tail, rfl, hfirst⟩ := first_of_numeral? h
  have hother : ∀ c : UInt8, ¬ (c = Ascii.minus ∨ Ascii.isDigit c = true) → b ≠ c := by
    rintro c hc rfl
    exact hc hfirst
  rw [List.cons_append] at hread ⊢
  rw [htree, treeWith, bind_of_ok (peek_cons (isBlank_of_first hfirst) _),
    if_neg (hother _ (by decide)), if_neg, if_neg (hother _ (by decide)),
    if_neg (hother _ (by decide)), if_neg (hother _ (by decide))]
  · exact hread
  · rintro (hbracket | hbrace)
    · exact hother _ (by decide) hbracket
    · exact hother _ (by decide) hbrace

/-- Items that are read as trees make an array of them. -/
theorem reads_tree_array {room : Nat} {texts : List Bytes} {trees : List Tree}
    (h : List.Forall₂ (Reads (tree room)) texts trees)
    (hbrace : ∀ text ∈ texts, text.head? = some Ascii.openBrace) :
    Reads (tree (room + 1)) (arrayText texts) (.array trees) := by
  intro rest hrest
  have hread := (reads_array h hbrace).map Tree.array rest hrest
  rw [arrayText, List.cons_append] at hread ⊢
  rw [tree, treeWith, bind_of_ok (peek_cons rfl _), if_neg (by decide), if_pos (Or.inl rfl), container,
    bind_of_ok (peek_cons rfl _), if_pos rfl]
  exact hread

/-- The members of a tree gather in front of those before them. -/
theorem folds_trees {room : Nat} {written : List (String × Bytes)} {members : List (String × Tree)}
    (h : List.Forall₂ (fun m t => m.1 = t.1 ∧ Reads (tree room) m.2 t.2) written members)
    (seen : List (String × Tree)) :
    Folds (fun seen key => do return (key, ← tree room) :: seen) written seen
      (members.reverse ++ seen) := by
  induction h generalizing seen with
  | nil => exact .nil seen
  | @cons m t written members hfirst hothers ih =>
    obtain ⟨key, text⟩ := m
    obtain ⟨_, x⟩ := t
    obtain ⟨rfl, hread⟩ := hfirst
    rw [List.reverse_cons, List.append_assoc, List.singleton_append]
    exact .cons (hread.bind_pure fun _ => rfl) (ih _)

/-- Members that are read have the keys under which they were written. -/
theorem keys_of_forall₂ {holds : Bytes → Tree → Prop} {written : List (String × Bytes)}
    {members : List (String × Tree)}
    (h : List.Forall₂ (fun m t => m.1 = t.1 ∧ holds m.2 t.2) written members) :
    written.map (·.1) = members.map (·.1) := by
  induction h with
  | nil => rfl
  | cons hfirst _ ih => rw [List.map_cons, List.map_cons, hfirst.1, ih]

/-- Members that are read as trees make an object of them. -/
theorem reads_tree_object {room : Nat} {written : List (String × Bytes)}
    {members : List (String × Tree)}
    (h : List.Forall₂ (fun m t => m.1 = t.1 ∧ Reads (tree room) m.2 t.2) written members) :
    Reads (tree (room + 1)) (objectText written) (.object members) := by
  intro rest hrest
  have hread := reads_object (folds_trees h []) rest hrest
  rw [List.append_nil] at hread
  rw [objectText, List.cons_append] at hread ⊢
  rw [tree, treeWith, bind_of_ok (peek_cons rfl _), if_neg (by decide), if_pos (Or.inr rfl), container,
    bind_of_ok (peek_cons rfl _), if_neg (by decide), bind_of_ok hread, List.reverse_reverse]
  rfl

-- ── Taking trees apart ──────────────────────────────────────────────────────

/-- The text is read as a tree, and of the tree `read` makes `x`. -/
def Shows (room : Nat) (read : Held α) (text : Bytes) (x : α) : Prop :=
  ∃ t, Reads (tree room) text t ∧ read t = .ok x

/-- What is held in a tree is read without taking anything from it. -/
theorem held_bind_of_ok {read : Held α} {next : α → Held β} {t : Tree} {x : α} (h : read t = .ok x) :
    (read >>= next) t = next x t := by
  show (read t >>= fun x => next x t) = _
  rw [h]
  rfl

namespace Shows

variable {room : Nat} {read : Held α} {text : Bytes} {x : α}

/-- To change what is read changes nothing of the tree. -/
theorem map (h : Shows room read text x) (f : α → β) : Shows room (f <$> read) text (f x) := by
  obtain ⟨t, hreads, hread⟩ := h
  refine ⟨t, hreads, ?_⟩
  show f <$> read t = _
  rw [hread]
  rfl

/-- A field that has not come yet is read. -/
theorem once (h : Shows room read text x) : Shows room (Json.once none read) text (some x) :=
  h.map some

/-- What is read may be worked on, if that succeeds. -/
theorem bind_pure {next : α → Held β} {y : β} (h : Shows room read text x)
    (hnext : ∀ t, next x t = .ok y) : Shows room (read >>= next) text y := by
  obtain ⟨t, hreads, hread⟩ := h
  exact ⟨t, hreads, (held_bind_of_ok hread).trans (hnext t)⟩

/-- A sample that survives its text is shown, a NaN as the one NaN. -/
theorem sample (room : Nat) {x : Binary64} (h : x.isFinite = true → Survives x) :
    Shows room held.sample (sampleText x) x.canonical := by
  cases hfinite : x.isFinite with
  | true =>
    obtain ⟨n, hnumeral, hvalue⟩ := h hfinite
    refine ⟨.number n, ?_, ?_⟩
    · rw [sampleText, if_pos hfinite]
      exact reads_tree_number room hnumeral (by rw [hvalue]; rfl)
    · simp only [held]
      rw [hvalue, Binary64.canonical_of_finite hfinite]
      rfl
  | false =>
    refine ⟨.text (specialName x), ?_, ?_⟩
    · rw [sampleText, if_neg (by rw [hfinite]; exact Bool.false_ne_true)]
      exact reads_tree_text room _
    · show named (specialName x) = _
      rw [named, special?_specialName hfinite]

/-- A count is shown by its digits. -/
theorem count (room : Nat) (n : UInt64) : Shows room held.count (Ascii.natural n.toNat) n := by
  have hn : n.toNat < UInt64.size := n.toNat_lt_size
  refine ⟨.number ⟨false, ⟨n.toNat, 0⟩, true⟩, ?_, ?_⟩
  · exact reads_tree_number room (numeral?_natural n.toNat) (isSome_toBinary64?_count hn)
  · show UInt64.ofNat <$> (orFail (Numeral.toCount? _ UInt64.size) : Except Fault Nat) = _
    rw [toCount?_natural hn]
    exact congrArg Except.ok UInt64.ofNat_toNat

/-- An array shows the list of what its items show. -/
theorem list {item : Held α} {texts : List Bytes} {xs : List α}
    (h : List.Forall₂ (Shows room item) texts xs)
    (hbrace : ∀ text ∈ texts, text.head? = some Ascii.openBrace) :
    Shows (room + 1) (Tree.list item) (arrayText texts) xs := by
  obtain ⟨trees, hreads, hitems⟩ : ∃ trees, List.Forall₂ (Reads (tree room)) texts trees ∧
      trees.mapM item = .ok xs := by
    clear hbrace
    induction h with
    | nil => exact ⟨[], .nil, rfl⟩
    | @cons text x texts xs hfirst hothers ih =>
      obtain ⟨t, hreads, hitem⟩ := hfirst
      obtain ⟨trees, hall, hitems⟩ := ih
      refine ⟨t :: trees, .cons hreads hall, ?_⟩
      rw [List.mapM_cons, hitem, hitems]
      rfl
  exact ⟨.array trees, reads_tree_array hreads hbrace, hitems⟩

end Shows

/-- Showing these members one after another leads from one state to another. -/
inductive FoldsHeld (room : Nat) (field : σ → String → Held σ) :
    List (String × Bytes) → σ → σ → Prop where
  | nil (seen : σ) : FoldsHeld room field [] seen seen
  | cons {key : String} {text : Bytes} {rest : List (String × Bytes)} {seen seen' seen'' : σ}
      (hmember : Shows room (field seen key) text seen')
      (hrest : FoldsHeld room field rest seen' seen'') :
      FoldsHeld room field ((key, text) :: rest) seen seen''

/-- The members of a tree under the keys that were written, folded. -/
theorem members_of_foldsHeld {room : Nat} {field : σ → String → Held σ}
    {written : List (String × Bytes)} {start final : σ} (h : FoldsHeld room field written start final) :
    ∃ members : List (String × Tree),
      List.Forall₂ (fun m t => m.1 = t.1 ∧ Reads (tree room) m.2 t.2) written members ∧
        members.foldlM (fun seen member => field seen member.1 member.2) start = .ok final := by
  induction h with
  | nil seen => exact ⟨[], .nil, rfl⟩
  | @cons key text written seen seen' seen'' hmember hrest ih =>
    obtain ⟨t, hreads, hfield⟩ := hmember
    obtain ⟨members, hall, hfold⟩ := ih
    refine ⟨(key, t) :: members, .cons ⟨rfl, hreads⟩ hall, ?_⟩
    rw [List.foldlM_cons, hfield]
    exact hfold

/-- A record in a tree is folded as its members show. -/
theorem shows_record {room : Nat} (names : List String) {field : σ → String → Held σ}
    {written : List (String × Bytes)} {start final : σ}
    (h : FoldsHeld room field written start final) :
    Shows (room + 1) (Tree.record names field start) (objectText written) final := by
  obtain ⟨members, hall, hfold⟩ := members_of_foldsHeld h
  exact ⟨.object members, reads_tree_object hall, hfold⟩

end MetricDepot.Json
