import MetricDepot.Proofs.Checkpoint.Damaged
import MetricDepot.Proofs.Checkpoint.RoundTrip
/-!
# Replay — to restore is to write

    A record of a checkpoint and a write of its family alone are judged by two rules that were
    made apart: the reader looks for damage in what it is given, and a write takes what it can.
    They come to the same.  A record is not damaged exactly when the write takes its family
    whole, and then both put the same into the slot.

    So the catalog that a checkpoint holds is the empty one after a write for each record, in
    the order of the bytes.
-/

namespace MetricDepot

namespace Record

/-- The write of the family of a record, alone and under the name of its slot. -/
def request (r : Record) : Request :=
  ⟨r.slot.group, r.stored.received, .write (SortedMap.ofList [(r.slot.name, r.stored.family)])⟩

/-- A group takes the family of a consistent record whole. -/
theorem judge_of_consistent {r : Record} (h : r.Consistent) :
    Catalog.judge r.slot.group r.slot.name r.stored.family = ⟨some r.stored.family, 0⟩ := by
  rw [Catalog.judge, if_pos ⟨h.named.symm, h.valid⟩]
  exact Family.admission_of_rejected (Family.rejected_eq_zero_iff.mpr h.belongs)

/-- A record is consistent if a group takes something of its family and rejects nothing. -/
theorem consistent_of_judge {r : Record} {taken : Family}
    (h : Catalog.judge r.slot.group r.slot.name r.stored.family = ⟨some taken, 0⟩) :
    r.Consistent := by
  rw [Catalog.judge] at h
  split at h
  next hboth =>
    obtain ⟨hname, hvalid⟩ := hboth
    exact ⟨hvalid, hname.symm, Family.rejected_eq_zero_iff.mp (congrArg Admission.rejected h)⟩
  next => cases h

end Record

namespace Catalog

variable {g : Group} {key : String} {f taken : Family} {rejected : Nat}

-- ── Writing one family ──────────────────────────────────────────────────────

/-- A write of one family of which the group takes something. -/
theorem write_of_taken (h : judge g key f = ⟨some taken, rejected⟩) (c : Catalog)
    (received : ReceiveTime) :
    c.write g received [(key, f)] =
      (c.insert ⟨g, key⟩ ⟨max received .epoch, taken⟩, ⟨1, 0, rejected, false, true⟩) := by
  simp [write, h]

/-- A write of one family of which the group takes nothing. -/
theorem write_of_refused (h : judge g key f = ⟨none, rejected⟩) (c : Catalog)
    (received : ReceiveTime) :
    c.write g received [(key, f)] = (c, ⟨0, 1, rejected, false, false⟩) := by
  simp [write, h]

theorem max_epoch_of_le {t : ReceiveTime} (h : ReceiveTime.epoch ≤ t) : max t .epoch = t := by
  show (if t ≤ .epoch then ReceiveTime.epoch else t) = t
  split
  next hle => exact ReceiveTime.eq_of_nanos (Int.le_antisymm h hle)
  next => rfl

theorem apply_request (c : Catalog) (r : Record) :
    c.apply r.request =
      c.write r.slot.group r.stored.received [(r.slot.name, r.stored.family)] := rfl

/-- The write of a consistent record puts what the record says into its slot. -/
theorem apply_request_of_consistent (c : Catalog) {r : Record} (h : r.Consistent)
    (hreceived : ReceiveTime.epoch ≤ r.stored.received) :
    c.apply r.request = (c.insert r.slot r.stored, ⟨1, 0, 0, false, true⟩) := by
  rw [apply_request, write_of_taken (Record.judge_of_consistent h), max_epoch_of_le hreceived]

/-- A write that takes a family whole was of a consistent record. -/
theorem consistent_of_outcome {c : Catalog} {r : Record}
    (hwritten : (c.apply r.request).2.written = 1)
    (hrejected : (c.apply r.request).2.samplesRejected = 0) : r.Consistent := by
  rw [apply_request] at hwritten hrejected
  cases hjudge : judge r.slot.group r.slot.name r.stored.family with
  | mk accepted rejected =>
    cases accepted with
    | none =>
      rw [write_of_refused hjudge] at hwritten
      cases hwritten
    | some taken =>
      rw [write_of_taken hjudge] at hrejected
      obtain rfl : rejected = 0 := hrejected
      exact Record.consistent_of_judge hjudge

/-- Consistent records are put in by writes, one after another. -/
theorem applyAll_requests (c : Catalog) {rs : List Record}
    (h : ∀ r ∈ rs, r.Consistent ∧ ReceiveTime.epoch ≤ r.stored.received) :
    c.applyAll (rs.map Record.request) = c.insertAll (rs.map Record.entry) := by
  induction rs generalizing c with
  | nil => rfl
  | cons r rs ih =>
    obtain ⟨⟨hconsistent, hreceived⟩, hrest⟩ := List.forall_mem_cons.mp h
    show (c.apply r.request).1.applyAll (rs.map Record.request) = _
    rw [apply_request_of_consistent c hconsistent hreceived, ih _ hrest]
    rfl

end Catalog

namespace Checkpoint

-- ── Restoring ───────────────────────────────────────────────────────────────

/-- The catalog of a layout is made by writes of its records. -/
theorem catalogOf_eq_applyAll {bytes : Bytes} {payloads : List Bytes} {rs : List Record}
    (h : LaidOut bytes payloads rs) :
    catalogOf rs = Catalog.empty.applyAll (rs.map Record.request) := by
  refine (Catalog.applyAll_requests .empty fun r hr => ?_).symm
  have hfits := fits_of_holds h.holds r hr
  exact ⟨Record.consistent_of_fits hfits, hfits.received⟩

/-- **To restore is to write.** A record whose time is not before the epoch has no damage if and
    only if a write of its family alone, to any catalog, reports one family written and
    nothing rejected, and leaves just this family and this time in the slot.  So what is
    read from bytes is the empty catalog after a write for each record that is laid out in
    them, in their order. -/
theorem restored_as_written :
    (∀ (c : Catalog) (r : Record), ReceiveTime.epoch ≤ r.stored.received →
      (r.damage? = none ↔
        (c.apply r.request).2.written = 1 ∧ (c.apply r.request).2.rejected = 0 ∧
          (c.apply r.request).2.samplesRejected = 0 ∧
          (c.apply r.request).1.get? r.slot = some r.stored)) ∧
      ∀ bytes c, decode bytes = .ok c →
        (∃ payloads rs, LaidOut bytes payloads rs) ∧
          ∀ payloads rs, LaidOut bytes payloads rs →
            c = Catalog.empty.applyAll (rs.map Record.request) := by
  refine ⟨?_, ?_⟩
  · intro c r hreceived
    rw [Record.damage?_eq_none_iff]
    constructor
    · intro hconsistent
      rw [Catalog.apply_request_of_consistent c hconsistent hreceived]
      exact ⟨rfl, rfl, rfl, by rw [Catalog.get?_insert, if_pos rfl]⟩
    · rintro ⟨hwritten, -, hrejected, -⟩
      exact Catalog.consistent_of_outcome hwritten hrejected
  · intro bytes c hdecode
    obtain ⟨payloads, rs, hlaid, -⟩ := laidOut_of_decode hdecode
    refine ⟨⟨payloads, rs, hlaid⟩, ?_⟩
    intro payloads rs hlaid
    rw [← catalogOf_eq_applyAll hlaid]
    exact Except.ok.inj (hdecode.symm.trans (decode_of_laidOut hlaid))

/-- A record of one gauge of its group, and of one without labels. -/
def mixedRecord : Record :=
  ⟨⟨⟨"job", ""⟩, "up"⟩, ⟨.epoch, ⟨"up", "", .gauge,
    [⟨SortedMap.ofList [("job", "job")], .gauge ⟨0x3FF0000000000000⟩, none⟩,
      ⟨.empty, .gauge ⟨0⟩, none⟩]⟩⟩⟩

/-- A record that a write takes whole, one of which it takes a part, and a checkpoint. -/
theorem restored_as_written_upCheckpoint :
    (ReceiveTime.epoch ≤ upRecord.stored.received ∧ upRecord.damage? = none ∧
        (Catalog.empty.apply upRecord.request).1.get? upRecord.slot = some upRecord.stored) ∧
      (ReceiveTime.epoch ≤ mixedRecord.stored.received ∧ mixedRecord.damage? ≠ none ∧
        (Catalog.empty.apply mixedRecord.request).2.samplesRejected = 1) ∧
      decode upCheckpoint = .ok (catalogOf [upRecord]) ∧
      ∃ payloads rs, LaidOut upCheckpoint payloads rs ∧
        catalogOf [upRecord] = Catalog.empty.applyAll (rs.map Record.request) := by
  obtain ⟨hrecord, hbytes⟩ := restored_as_written
  have hup : upRecord.damage? = none := by decide
  have hpart : (Catalog.empty.apply mixedRecord.request).2.samplesRejected = 1 := by decide
  refine ⟨⟨by decide, hup, ?_⟩, ⟨by decide, ?_, hpart⟩, decode_upCheckpoint, ?_⟩
  · obtain ⟨-, -, -, hslot⟩ := (hrecord .empty upRecord (by decide)).mp hup
    exact hslot
  · intro hnone
    obtain ⟨-, -, hwhole, -⟩ := (hrecord .empty mixedRecord (by decide)).mp hnone
    rw [hpart] at hwhole
    cases hwhole
  · obtain ⟨⟨payloads, rs, hlaid⟩, hcatalog⟩ := hbytes upCheckpoint _ decode_upCheckpoint
    exact ⟨payloads, rs, hlaid, hcatalog payloads rs hlaid⟩

end Checkpoint

end MetricDepot
