import MetricDepot.Proofs.Catalog.Requests
import MetricDepot.Proofs.Json.SampleTexts
/-!
# Canonical checkpoints — one byte string for each content

    A checkpoint is made of the texts of its records, in the order of their slots.  A text
    knows only one NaN, so a record has the text of its canonical form; and in order, the
    records of catalogs that are alike are the same up to their NaNs.  Nothing else goes into
    the bytes: neither the history of the catalog nor the order in which its maps come.

    The other way round, what is read from a checkpoint tells every slot of the catalog that
    was written, so one checkpoint is never that of catalogs which are not alike.
-/

namespace MetricDepot

open Json

-- ── Texts of records ────────────────────────────────────────────────────────

/-- A record has the text of its canonical form. -/
@[simp] theorem Record.json_canonical (r : Record) : r.canonical.json = r.json := by
  rw [json, json, canonical, Stored.canonical, Family.json_canonical]

/-- The finite numbers in a catalog survive their texts. -/
def Catalog.Legible (c : Catalog) : Prop :=
  ∀ r ∈ Checkpoint.records c, ∀ x ∈ r.stored.family.numbers, x.isFinite = true → Survives x

instance (c : Catalog) : Decidable c.Legible :=
  inferInstanceAs (Decidable (∀ r ∈ Checkpoint.records c, ∀ x ∈ r.stored.family.numbers,
    x.isFinite = true → Survives x))

/-- That holds of every catalog. -/
theorem Catalog.legible (c : Catalog) : c.Legible := fun _ _ _ _ => survives_of_isFinite

-- ── Records in order ────────────────────────────────────────────────────────

namespace Catalog

theorem ascending_canonical (c : Catalog) :
    (c.slots.map fun e => (e.1, e.2.canonical)).Pairwise (fun a b => a.1.key < b.1.key) := by
  rw [List.pairwise_map]
  exact c.ascending_slots

theorem mem_canonical {c : Catalog} {s : Slot} {stored : Stored} :
    (s, stored) ∈ c.slots.map (fun e => (e.1, e.2.canonical))
      ↔ (c.get? s).map Stored.canonical = some stored := by
  rw [List.mem_map, Option.map_eq_some_iff]
  constructor
  · rintro ⟨⟨t, held⟩, hheld, heq⟩
    obtain ⟨rfl, rfl⟩ := Prod.mk.inj heq
    exact ⟨held, mem_slots.mp hheld, rfl⟩
  · rintro ⟨held, hheld, rfl⟩
    exact ⟨(s, held), mem_slots.mpr hheld, rfl⟩

end Catalog

namespace Checkpoint

variable {c d : Catalog}

/-- The slots of a catalog as a checkpoint, in whatever order they come. -/
def encodeListing (listing : List (Slot × Stored)) : Except Fault Bytes :=
  encodeRecords ((Catalog.inOrder listing).map fun e => ⟨e.1, e.2⟩)

/-- The order in which the slots of a catalog come makes no difference. -/
theorem encodeListing_of_perm {listing : List (Slot × Stored)} (h : listing.Perm c.slots) :
    encodeListing listing = encode c := by
  rw [encodeListing, Catalog.inOrder_of_perm h]
  rfl

theorem frameOf_canonical (r : Record) : frameOf r.canonical = frameOf r := by
  rw [frameOf, frameOf, Record.json_canonical]
  rfl

theorem encodeRecords_canonical (rs : List Record) :
    encodeRecords (rs.map Record.canonical) = encodeRecords rs := by
  have hframe : frameOf ∘ Record.canonical = frameOf := funext frameOf_canonical
  rw [encodeRecords, encodeRecords, List.mapM_map, hframe]

/-- In order, the records of catalogs that are alike are the same up to their NaNs. -/
theorem records_canonical_of_alike (h : Catalog.Alike c d) :
    (records c).map Record.canonical = (records d).map Record.canonical := by
  have hlisting : c.slots.map (fun e => (e.1, e.2.canonical))
      = d.slots.map (fun e => (e.1, e.2.canonical)) := by
    refine Catalog.eq_of_ascending c.ascending_canonical d.ascending_canonical ?_
    rintro ⟨s, stored⟩
    rw [Catalog.mem_canonical, Catalog.mem_canonical, h]
  have hrecords : ∀ c : Catalog, (records c).map Record.canonical
      = (c.slots.map fun e => (e.1, e.2.canonical)).map fun e => ⟨e.1, e.2⟩ := by
    intro c
    rw [records, List.map_map, List.map_map]
    rfl
  rw [hrecords, hrecords, hlisting]

/-- A checkpoint is made of the canonical forms of its records. -/
theorem encode_eq_canonical (c : Catalog) : encode c = encodeRecords ((records c).map Record.canonical) := by
  rw [encodeRecords_canonical]
  rfl

/-- **Catalogs that are alike have the same checkpoint**, or none for the same fault. -/
theorem encode_of_alike (h : Catalog.Alike c d) : encode c = encode d := by
  rw [encode_eq_canonical, encode_eq_canonical, records_canonical_of_alike h]

-- ── Bytes tell the catalog ──────────────────────────────────────────────────

/-- One checkpoint is never that of catalogs which are not alike. -/
theorem alike_of_encode {bytes : Bytes} (hc : c.Sound) (hd : d.Sound) (hlegible : c.Legible)
    (hlegible' : d.Legible) (h : encode c = .ok bytes) (h' : encode d = .ok bytes) :
    Catalog.Alike c d := by
  obtain ⟨e, he, hslots⟩ := decode_of_encode hc h hlegible
  obtain ⟨e', he', hslots'⟩ := decode_of_encode hd h' hlegible'
  obtain rfl := Except.ok.inj (he.symm.trans he')
  intro s
  rw [← hslots, ← hslots']

/-- What is read from a checkpoint has the same checkpoint. -/
theorem encode_decode {bytes : Bytes} (hc : c.Sound) (hlegible : c.Legible) (h : encode c = .ok bytes) :
    ∃ e, decode bytes = .ok e ∧ encode e = .ok bytes := by
  obtain ⟨e, he, hslots⟩ := decode_of_encode hc h hlegible
  exact ⟨e, he, (encode_of_alike (.of_canonical hslots)).trans h⟩

end Checkpoint

end MetricDepot
