import MetricDepot.Proofs.Checkpoint.Restored
/-!
# Accepted bytes — the reader accepts the format, and nothing else

    The bytes that can be read as a checkpoint are those that are laid out as one, and the
    catalog that is read holds the records of the layout, each in its slot, and nothing else.
    A catalog and the list of records that it was made of are the same records in another
    order, since no two of them have one slot.
-/

namespace MetricDepot.Checkpoint

theorem mem_records {c : Catalog} {r : Record} : r ∈ records c ↔ c.get? r.slot = some r.stored := by
  rw [← Catalog.mem_slots, records, List.mem_map]
  constructor
  · rintro ⟨e, he, rfl⟩
    exact he
  · intro h
    exact ⟨(r.slot, r.stored), h, rfl⟩

theorem nodup_records (c : Catalog) : (records c).Nodup := by
  have hslots : ((records c).map (·.slot)).Nodup := by
    rw [records, List.map_map]
    exact c.nodup_slots
  exact hslots.of_map

/-- A catalog that was made of records with slots of their own holds just these. -/
theorem records_catalogOf {rs : List Record} (hdistinct : (rs.map (·.slot)).Nodup) :
    (records (catalogOf rs)).Perm rs := by
  refine (List.perm_ext_iff_of_nodup (nodup_records _) hdistinct.of_map).mpr fun r => ?_
  have hentries : ((rs.map Record.entry).map (·.1)).Nodup := by
    rw [List.map_map]
    exact hdistinct
  rw [mem_records, catalogOf, Catalog.get?_insertAll hentries]
  constructor
  · rintro (hmem | ⟨-, hempty⟩)
    · obtain ⟨⟨slot, stored⟩, hheld, heq⟩ := List.mem_map.mp hmem
      obtain ⟨rfl, rfl⟩ := Prod.mk.inj heq
      exact hheld
    · cases hempty
  · intro h
    exact Or.inl (List.mem_map.mpr ⟨r, h, rfl⟩)

/-- Sound catalogs that hold the same records are equal. -/
theorem eq_of_perm_records {c d : Catalog} (hc : c.Sound) (hd : d.Sound)
    (h : (records c).Perm (records d)) : c = d := by
  refine hc.ext hd fun s => Option.ext fun stored => ?_
  exact (mem_records (r := ⟨s, stored⟩)).symm.trans (h.mem_iff.trans mem_records)

/-- **The reader accepts exactly the format.** Bytes can be read if and only if they are laid out
    as the checkpoint of some records: the magic bytes and the version; a frame for each
    record, whose payload is not empty and has a length of 32 bits, and is JSON text of the
    record; the end marker, the number of records, and the digest of what is before the
    marker; and nothing else.  The family of each record has no flaw, the name of the record,
    and only samples of its group, and no two records have one slot.  What is read is the
    catalog that holds these records and no others, and no empty job or group. -/
theorem decode_eq_ok_iff (bytes : Bytes) :
    ((∃ c, decode bytes = .ok c) ↔ ∃ payloads rs, LaidOut bytes payloads rs) ∧
      ∀ c, decode bytes = .ok c ↔
        c.Sound ∧ ∃ payloads rs, LaidOut bytes payloads rs ∧ (records c).Perm rs := by
  refine ⟨⟨?_, ?_⟩, fun c => ⟨?_, ?_⟩⟩
  · rintro ⟨c, hc⟩
    obtain ⟨payloads, rs, hlaid, -⟩ := laidOut_of_decode hc
    exact ⟨payloads, rs, hlaid⟩
  · rintro ⟨payloads, rs, hlaid⟩
    exact ⟨catalogOf rs, decode_of_laidOut hlaid⟩
  · intro hc
    obtain ⟨payloads, rs, hlaid, rfl⟩ := laidOut_of_decode hc
    exact ⟨sound_decode hc, payloads, rs, hlaid, records_catalogOf hlaid.distinct⟩
  · rintro ⟨hsound, payloads, rs, hlaid, hperm⟩
    have hread := decode_of_laidOut hlaid
    rw [hread, eq_of_perm_records hsound (sound_decode hread)
      (hperm.trans (records_catalogOf hlaid.distinct).symm)]

end MetricDepot.Checkpoint
