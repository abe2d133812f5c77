import MetricDepot.Family.Reader
import MetricDepot.Family.Writer
import MetricDepot.Proofs.Json.Trees
import MetricDepot.Proofs.SortedMap
/-!
# Written families — reading back what was written

    Every family is read back from its text, valid or not, with its samples in order and its
    labels, its help and its times as they were.  Only its NaNs come back as the one NaN, whose
    text they have.  The finite numbers in it must survive their texts.
-/

namespace MetricDepot

open Json

-- ── Numbers in a family ─────────────────────────────────────────────────────

/-- The numbers in a value. -/
def Value.numbers : Value → List Binary64
  | counter x => [x]
  | gauge x => [x]
  | untyped x => [x]
  | summary _ sum quantiles => sum :: quantiles.flatMap fun q => [q.quantile, q.value]
  | histogram _ sum buckets => sum :: buckets.map (·.upperBound)

/-- The numbers in a family. -/
def Family.numbers (f : Family) : List Binary64 := f.samples.flatMap (·.value.numbers)

-- ── Quantiles and buckets ───────────────────────────────────────────────────

section Items

variable {room : Nat}

/-- A quantile is read back, but for its NaNs. -/
theorem Quantile.shows {q : Quantile} (hquantile : q.quantile.isFinite = true → Survives q.quantile)
    (hvalue : q.value.isFinite = true → Survives q.value) :
    Shows (room + 1) Quantile.ofTree q.json q.canonical := by
  have hfirst : Shows room (Quantile.field held {} "quantile") (sampleText q.quantile)
      ⟨some q.quantile.canonical, none⟩ := by
    rw [Quantile.field, if_pos rfl]
    exact (Shows.sample room hquantile).once.bind_pure fun _ => rfl
  have hsecond : Shows room (Quantile.field held ⟨some q.quantile.canonical, none⟩ "value")
      (sampleText q.value) ⟨some q.quantile.canonical, some q.value.canonical⟩ := by
    rw [Quantile.field, if_neg (by decide), if_pos rfl]
    exact (Shows.sample room hvalue).once.bind_pure fun _ => rfl
  have hfields := shows_record Quantile.fieldNames (.cons hfirst (.cons hsecond (.nil _)))
  exact hfields.bind_pure fun _ => rfl

/-- So is a bucket. -/
theorem Bucket.shows {b : Bucket} (hbound : b.upperBound.isFinite = true → Survives b.upperBound) :
    Shows (room + 1) Bucket.ofTree b.json b.canonical := by
  have hfirst : Shows room (Bucket.field held {} "upper_bound") (sampleText b.upperBound)
      ⟨some b.upperBound.canonical, none⟩ := by
    rw [Bucket.field, if_pos rfl]
    exact (Shows.sample room hbound).once.bind_pure fun _ => rfl
  have hsecond : Shows room (Bucket.field held ⟨some b.upperBound.canonical, none⟩ "cumulative_count")
      (countText b.count) ⟨some b.upperBound.canonical, some b.count⟩ := by
    rw [Bucket.field, if_neg (by decide), if_pos rfl]
    exact (Shows.count room b.count).once.bind_pure fun _ => rfl
  have hfields := shows_record Bucket.fieldNames (.cons hfirst (.cons hsecond (.nil _)))
  exact hfields.bind_pure fun _ => rfl

end Items

-- ── Values ──────────────────────────────────────────────────────────────────

namespace Value

variable {room : Nat}

/-- A tree that holds the fields of a value besides its type. -/
def HoldsFields (room : Nat) (v : Value) (members : List (String × Tree)) : Prop :=
  List.Forall₂ (fun m t => m.1 = t.1 ∧ Reads (tree room) m.2 t.2) v.members members

/-- No member of a value is called as its kind is. -/
theorem type_notMem_keys (v : Value) : "type" ∉ v.members.map (·.1) := by
  cases v with
  | counter x | gauge x | untyped x => simp [members]
  | summary n sum items | histogram n sum items => simp [members]

/-- No field of a value is taken for its type. -/
theorem ne_type_of_holdsFields {v : Value} {members : List (String × Tree)}
    (h : HoldsFields room v members) : ∀ t ∈ members, t.1 ≠ "type" := by
  intro t ht htype
  refine type_notMem_keys v ?_
  rw [keys_of_forall₂ h, ← htype]
  exact List.mem_map_of_mem ht

/-- A value is read by its kind, which stands first, from the members behind it. -/
theorem ofTree_of_fields {kind : Kind} {members : List (String × Tree)} {v : Value}
    (hne : ∀ t ∈ members, t.1 ≠ "type") (hfields : ofFields kind (.object members) = .ok v) :
    ofTree (.object (("type", .text kind.name) :: members)) = .ok v := by
  have htype : (("type", Tree.text kind.name) :: members).filter (·.1 == "type")
      = [("type", .text kind.name)] := by
    rw [List.filter_cons_of_pos (by simp), List.filter_eq_nil_iff.mpr]
    intro t ht
    simpa using hne t ht
  have hothers : (("type", Tree.text kind.name) :: members).filter (·.1 != "type") = members := by
    rw [List.filter_cons_of_neg (by simp), List.filter_eq_self]
    intro t ht
    simpa using hne t ht
  rw [ofTree, htype]
  dsimp only
  rw [Kind.ofName?_name, hothers]
  exact hfields

/-- A value is shown once its fields are, each under its key. -/
theorem shows_of_fields {v w : Value} {members : List (String × Tree)}
    (hmembers : HoldsFields room v members) (hfields : ofFields v.kind (.object members) = .ok w) :
    Shows (room + 1) ofTree v.json w := by
  refine ⟨.object (("type", .text v.kind.name) :: members), ?_, ?_⟩
  · exact reads_tree_object (.cons ⟨rfl, reads_tree_text room _⟩ hmembers)
  · exact ofTree_of_fields (ne_type_of_holdsFields hmembers) hfields

end Value

namespace Value

variable {room : Nat}

/-- A value that is a single number is shown. -/
theorem shows_single {v : Value} {x : Binary64} {build : Binary64 → Value}
    (hmembers : v.members = [("value", sampleText x)])
    (hfields : ofFields v.kind = build <$> singleOfTree) (hx : x.isFinite = true → Survives x) :
    Shows (room + 1) ofTree v.json (build x.canonical) := by
  have hvalue : Shows room (singleField none "value") (sampleText x) (some x.canonical) := by
    rw [singleField, if_pos rfl]
    exact (Shows.sample room hx).once
  obtain ⟨members, hall, hfold⟩ := members_of_foldsHeld (.cons hvalue (.nil _))
  have hholds : HoldsFields room v members := by
    rw [HoldsFields, hmembers]
    exact hall
  have hrecord : Tree.record ["value"] singleField none (.object members) = .ok (some x.canonical) :=
    hfold
  have hsingle : singleOfTree (.object members) = .ok x.canonical := by
    rw [singleOfTree, held_bind_of_ok hrecord]
    rfl
  refine shows_of_fields hholds ?_
  rw [hfields]
  show build <$> singleOfTree (.object members) = _
  rw [hsingle]
  rfl

/-- A value that has a count, a sum and items is shown if its items are. -/
theorem shows_aggregate {α : Type} {v : Value} {plural : String} {item : Held α} {count : UInt64}
    {sum : Binary64} {texts : List Bytes} {xs : List α} {build : UInt64 → Binary64 → List α → Value}
    (hmembers : v.members = [("sample_count", countText count), ("sample_sum", sampleText sum),
      (plural, arrayText texts)])
    (hfields : ofFields v.kind = aggregateOfTree plural item build) (hcount : plural ≠ "sample_count")
    (hsum : plural ≠ "sample_sum") (hx : sum.isFinite = true → Survives sum)
    (hitems : List.Forall₂ (Shows room item) texts xs)
    (hbrace : ∀ text ∈ texts, text.head? = some Ascii.openBrace) :
    Shows (room + 2) ofTree v.json (build count sum.canonical xs) := by
  have hfirst : Shows (room + 1) (aggregateField plural item {} "sample_count") (countText count)
      ⟨some count, none, none⟩ := by
    rw [aggregateField, if_pos rfl]
    exact (Shows.count (room + 1) count).once.bind_pure fun _ => rfl
  have hsecond : Shows (room + 1) (aggregateField plural item ⟨some count, none, none⟩ "sample_sum")
      (sampleText sum) ⟨some count, some sum.canonical, none⟩ := by
    rw [aggregateField, if_neg (by decide), if_pos rfl]
    exact (Shows.sample (room + 1) hx).once.bind_pure fun _ => rfl
  have hthird : Shows (room + 1)
      (aggregateField plural item ⟨some count, some sum.canonical, none⟩ plural) (arrayText texts)
      ⟨some count, some sum.canonical, some xs⟩ := by
    rw [aggregateField, if_neg hcount, if_neg hsum, if_pos rfl]
    exact (Shows.list hitems hbrace).once.bind_pure fun _ => rfl
  obtain ⟨members, hall, hfold⟩ :=
    members_of_foldsHeld (.cons hfirst (.cons hsecond (.cons hthird (.nil _))))
  have hholds : HoldsFields (room + 1) v members := by
    rw [HoldsFields, hmembers]
    exact hall
  have hrecord : Tree.record ["sample_count", "sample_sum", plural] (aggregateField plural item) {}
      (.object members) = .ok ⟨some count, some sum.canonical, some xs⟩ := hfold
  refine shows_of_fields hholds ?_
  rw [hfields, aggregateOfTree, held_bind_of_ok hrecord]
  rfl

/-- **Every value is shown**, of whatever kind and with whatever items. -/
theorem shows (room : Nat) {v : Value} (h : ∀ x ∈ v.numbers, x.isFinite = true → Survives x) :
    Shows (room + 3) ofTree v.json v.canonical := by
  cases v with
  | counter x => exact shows_single rfl rfl (h x List.mem_cons_self)
  | gauge x => exact shows_single rfl rfl (h x List.mem_cons_self)
  | untyped x => exact shows_single rfl rfl (h x List.mem_cons_self)
  | summary n sum qs =>
    have hitems : List.Forall₂ (Shows (room + 1) Quantile.ofTree) (qs.map Quantile.json)
        (qs.map Quantile.canonical) := by
      rw [List.forall₂_map_left_iff, List.forall₂_map_right_iff, List.forall₂_same]
      intro q hq
      have hnumber : ∀ x ∈ [q.quantile, q.value], x.isFinite = true → Survives x := by
        intro x hx
        exact h x (List.mem_cons_of_mem _ (List.mem_flatMap.mpr ⟨q, hq, hx⟩))
      exact Quantile.shows (hnumber _ (by simp)) (hnumber _ (by simp))
    refine shows_aggregate rfl rfl (by decide) (by decide) (h sum List.mem_cons_self) hitems ?_
    intro text htext
    obtain ⟨q, -, rfl⟩ := List.mem_map.mp htext
    rfl
  | histogram n sum bs =>
    have hitems : List.Forall₂ (Shows (room + 1) Bucket.ofTree) (bs.map Bucket.json)
        (bs.map Bucket.canonical) := by
      rw [List.forall₂_map_left_iff, List.forall₂_map_right_iff, List.forall₂_same]
      intro b hb
      exact Bucket.shows (h _ (List.mem_cons_of_mem _ (List.mem_map_of_mem hb)))
    refine shows_aggregate rfl rfl (by decide) (by decide) (h sum List.mem_cons_self) hitems ?_
    intro text htext
    obtain ⟨b, -, rfl⟩ := List.mem_map.mp htext
    rfl

/-- A value is read back where the document leaves room for its containers. -/
theorem reads_json {v : Value} {outer : Nat} (houter : outer + 3 ≤ nestingLimit)
    (h : ∀ x ∈ v.numbers, x.isFinite = true → Survives x) :
    Reads (Value.read outer) v.json v.canonical := by
  obtain ⟨room, hroom⟩ : ∃ room, nestingLimit - outer = room + 3 :=
    ⟨nestingLimit - outer - 3, by omega⟩
  obtain ⟨t, hreads, ht⟩ := shows room h
  rw [Value.read, hroom]
  refine hreads.bind_pure fun rest => ?_
  show (ofTree t).map (·, rest) = _
  rw [ht]
  rfl

end Value

-- ── Samples ─────────────────────────────────────────────────────────────────

/-- Labels are inserted one after another. -/
theorem folds_labels (l : List (String × String)) (labels : SortedMap String) :
    Folds (fun labels name => do return labels.insert name (← string))
      (l.map fun e => (e.1, quoted e.2)) labels (l.foldl (fun m e => m.insert e.1 e.2) labels) := by
  induction l generalizing labels with
  | nil => exact .nil labels
  | cons e l ih => exact .cons ((reads_string e.2).bind_pure fun _ => rfl) (ih _)

/-- A map of labels is read back. -/
theorem reads_labels (labels : SortedMap String) : Reads readLabels (labelsJson labels) labels := by
  have hread := reads_object (folds_labels labels.entries .empty)
  rw [show labels.entries.foldl (fun m e => m.insert e.1 e.2) .empty = labels from
    labels.ofList_entries] at hread
  exact hread

/-- A time stamp is read back. -/
theorem reads_timestamp (t : Int64) : Reads (nullable signed) (Ascii.integer t.toInt) (some t) := by
  intro rest hrest
  have hread := (reads_signed t).map some rest hrest
  obtain ⟨b, tail, htext, hfirst⟩ := first_of_numeral? (numeral?_integer t.toInt)
  have hletter : b ≠ Ascii.letterN := by
    rintro rfl
    exact absurd hfirst (by decide)
  rw [htext, List.cons_append] at hread ⊢
  rw [nullable, bind_of_ok (peek_cons (isBlank_of_first hfirst) _), if_neg hletter]
  exact hread

/-- A sample is read back where the document leaves room for the containers of its value. -/
theorem Sample.reads_json {s : Sample} {outer : Nat} (houter : outer + 4 ≤ nestingLimit)
    (h : ∀ x ∈ s.value.numbers, x.isFinite = true → Survives x) :
    Reads (Sample.read outer) s.json s.canonical := by
  have hlabels : Reads (Sample.field outer {} "labels") (labelsJson s.labels)
      ⟨some s.labels, none, none⟩ := by
    rw [Sample.field, if_pos rfl]
    exact (reads_labels s.labels).once.bind_pure fun _ => rfl
  have hvalue : Reads (Sample.field outer ⟨some s.labels, none, none⟩ "value") s.value.json
      ⟨some s.labels, some s.value.canonical, none⟩ := by
    rw [Sample.field, if_neg (by decide), if_pos rfl]
    exact (Value.reads_json (by omega) h).once.bind_pure fun _ => rfl
  rw [Sample.json, Sample.canonical]
  cases htime : s.timestamp with
  | none =>
    have hfields := reads_record Sample.fieldNames (.cons hlabels (.cons hvalue (.nil _)))
    exact hfields.bind_pure fun _ => rfl
  | some t =>
    have htimestamp : Reads
        (Sample.field outer ⟨some s.labels, some s.value.canonical, none⟩ "timestamp_ms")
        (Ascii.integer t.toInt) ⟨some s.labels, some s.value.canonical, some (some t)⟩ := by
      rw [Sample.field, if_neg (by decide), if_neg (by decide), if_pos rfl]
      exact (reads_timestamp t).once.bind_pure fun _ => rfl
    have hfields := reads_record Sample.fieldNames
      (.cons hlabels (.cons hvalue (.cons htimestamp (.nil _))))
    exact hfields.bind_pure fun _ => rfl

-- ── Families ────────────────────────────────────────────────────────────────

/-- A kind is read back. -/
theorem Kind.reads_json (k : Kind) : Reads Kind.read k.json k := by
  intro rest hrest
  have hread : Reads (do orFail (Kind.ofName? (← string)) : Reader Kind) (quoted k.name) k := by
    refine (reads_string k.name).bind_pure fun rest => ?_
    rw [Kind.ofName?_name]
    rfl
  rw [Kind.read, show k.json ++ rest = Ascii.quote :: _ from rfl, bind_of_ok (peek_cons rfl _),
    if_neg (by decide)]
  exact hread rest hrest

/-- **Every family is read back**, valid or not, with its NaNs merged. -/
theorem Family.reads_json {f : Family} {outer : Nat} (houter : outer + 6 ≤ nestingLimit)
    (h : ∀ x ∈ f.numbers, x.isFinite = true → Survives x) :
    Reads (Family.read outer) f.json f.canonical := by
  have hname : Reads (Family.field outer {} "name") (quoted f.name) ⟨some f.name, none, none, none⟩ := by
    rw [Family.field, if_pos rfl]
    exact (reads_string f.name).once.bind_pure fun _ => rfl
  have hhelp : Reads (Family.field outer ⟨some f.name, none, none, none⟩ "help") (quoted f.help)
      ⟨some f.name, some f.help, none, none⟩ := by
    rw [Family.field, if_neg (by decide), if_pos rfl]
    exact (reads_string f.help).once.bind_pure fun _ => rfl
  have hkind : Reads (Family.field outer ⟨some f.name, some f.help, none, none⟩ "kind") f.kind.json
      ⟨some f.name, some f.help, some f.kind, none⟩ := by
    rw [Family.field, if_neg (by decide), if_neg (by decide), if_pos rfl]
    exact (Kind.reads_json f.kind).once.bind_pure fun _ => rfl
  have hitems : List.Forall₂ (Reads (Sample.read (outer + 2))) (f.samples.map Sample.json)
      (f.samples.map Sample.canonical) := by
    rw [List.forall₂_map_left_iff, List.forall₂_map_right_iff, List.forall₂_same]
    intro s hs
    refine Sample.reads_json (by omega) fun x hx => h x ?_
    exact List.mem_flatMap.mpr ⟨s, hs, hx⟩
  have hsamples : Reads (array (Sample.read (outer + 2))) (arrayText (f.samples.map Sample.json))
      (f.samples.map Sample.canonical) := by
    refine reads_array hitems fun text htext => ?_
    obtain ⟨s, -, rfl⟩ := List.mem_map.mp htext
    rfl
  have hmetrics : Reads (Family.field outer ⟨some f.name, some f.help, some f.kind, none⟩ "metrics")
      (arrayText (f.samples.map Sample.json))
      ⟨some f.name, some f.help, some f.kind, some (f.samples.map Sample.canonical)⟩ := by
    rw [Family.field, if_neg (by decide), if_neg (by decide), if_neg (by decide), if_pos rfl]
    exact hsamples.once.bind_pure fun _ => rfl
  have hfields := reads_record Family.fieldNames
    (.cons hname (.cons hhelp (.cons hkind (.cons hmetrics (.nil _)))))
  exact hfields.bind_pure fun _ => rfl

-- ── Texts know one NaN ──────────────────────────────────────────────────────

/-- All NaNs have one text. -/
theorem Json.sampleText_of_isNaN {x : Binary64} (h : x.isNaN = true) : sampleText x = quoted "NaN" := by
  have hfinite : ¬ x.isFinite = true := by
    simp only [Binary64.isNaN, Binary64.isFinite, decide_eq_true_eq] at h ⊢
    omega
  rw [sampleText, if_neg hfinite, specialName, if_pos h]

@[simp] theorem Json.sampleText_canonical (x : Binary64) : sampleText x.canonical = sampleText x := by
  cases hnan : x.isNaN with
  | false => rw [Binary64.canonical, hnan, if_neg Bool.false_ne_true]
  | true =>
    have hone : Binary64.nan.isNaN = true := by decide
    rw [Binary64.canonical, if_pos hnan, sampleText_of_isNaN hnan, sampleText_of_isNaN hone]

@[simp] theorem Quantile.json_canonical (q : Quantile) : q.canonical.json = q.json := by
  rw [json, json, canonical, sampleText_canonical, sampleText_canonical]

@[simp] theorem Bucket.json_canonical (b : Bucket) : b.canonical.json = b.json := by
  rw [json, json, canonical, sampleText_canonical]

@[simp] theorem Value.json_canonical (v : Value) : v.canonical.json = v.json := by
  have hquantile : Quantile.json ∘ Quantile.canonical = Quantile.json := funext Quantile.json_canonical
  have hbucket : Bucket.json ∘ Bucket.canonical = Bucket.json := funext Bucket.json_canonical
  rw [json, json, kind_canonical]
  cases v with
  | counter x | gauge x | untyped x => rw [canonical, members, members, sampleText_canonical]
  | summary n sum qs => rw [canonical, members, members, sampleText_canonical, List.map_map, hquantile]
  | histogram n sum bs => rw [canonical, members, members, sampleText_canonical, List.map_map, hbucket]

@[simp] theorem Sample.json_canonical (s : Sample) : s.canonical.json = s.json := by
  rw [json, json, canonical, Value.json_canonical]

@[simp] theorem Family.json_canonical (f : Family) : f.canonical.json = f.json := by
  have hsample : Sample.json ∘ Sample.canonical = Sample.json := funext Sample.json_canonical
  rw [json, json, canonical, List.map_map, hsample]

end MetricDepot
