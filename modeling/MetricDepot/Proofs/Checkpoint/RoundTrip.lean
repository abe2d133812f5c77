import MetricDepot.Proofs.Catalog.Sound
import MetricDepot.Proofs.Checkpoint.Layout
import MetricDepot.Proofs.Family.Written
/-!
# Round trip — a checkpoint holds its catalog

    A sound catalog is put into the format, and what is read from the format is the catalog
    again, slot by slot, with the NaNs of its families merged.

    That the catalog is sound is what the reader asks for: a record that fits its slot is not
    damaged, and slots that are listed once are never taken.  A length is never mistaken for
    the end marker since no record is empty.
-/

namespace MetricDepot

open Json

-- ── Records ─────────────────────────────────────────────────────────────────

/-- What is stored, with its NaNs merged. -/
def Stored.canonical (s : Stored) : Stored := { s with family := s.family.canonical }

/-- The record with its NaNs merged. -/
def Record.canonical (r : Record) : Record := { r with stored := r.stored.canonical }

theorem Family.flaw?_canonical (f : Family) : f.canonical.flaw? = f.flaw? := by
  have hsample : ∀ s : Sample, s.canonical.flaw? f.name f.kind = s.flaw? f.name f.kind := by
    intro s
    rw [Sample.flaw?, Sample.flaw?]
    simp only [Sample.canonical, Value.kind_canonical]
  show (if isMetricName f.name then
    (f.samples.map Sample.canonical).findSome? (·.flaw? f.name f.kind) else _) = _
  rw [List.findSome?_map, flaw?]
  congr 2
  exact funext hsample

theorem Fits.canonical {s : Slot} {stored : Stored} (h : Fits s stored) : Fits s stored.canonical := by
  refine ⟨h.name, ?_, ?_, h.received⟩
  · show stored.family.canonical.isValid = true
    rw [Family.isValid, Family.flaw?_canonical]
    exact h.valid
  · intro sample hsample
    obtain ⟨before, hbefore, rfl⟩ := List.mem_map.mp hsample
    exact h.belongs before hbefore

/-- A record that fits its slot is consistent. -/
theorem Record.consistent_of_fits {r : Record} (h : Fits r.slot r.stored) : r.Consistent :=
  ⟨h.valid, h.name, h.belongs⟩

theorem ReceiveTime.reads_json {t : ReceiveTime} (h : epoch ≤ t) : Reads ReceiveTime.read t.json t := by
  have hseconds : t.seconds < UInt64.size := by
    have := t.before_end
    rw [seconds, Nat.div_lt_iff_lt_mul (by decide)]
    simp only [receiveSpan, nanosPerSecond, UInt64.size] at *
    omega
  have hnanos : t.subsecond < UInt32.size := Nat.lt_trans (Nat.mod_lt _ (by decide)) (by decide)
  have hfirst : Reads (ReceiveTime.field {} "secs_since_epoch") (Ascii.natural t.seconds)
      ⟨some t.seconds, none⟩ := by
    rw [ReceiveTime.field, if_pos rfl]
    exact (reads_toCount hseconds).once.bind_pure fun _ => rfl
  have hsecond : Reads (ReceiveTime.field ⟨some t.seconds, none⟩ "nanos_since_epoch")
      (Ascii.natural t.subsecond) ⟨some t.seconds, some t.subsecond⟩ := by
    rw [ReceiveTime.field, if_neg (by decide), if_pos rfl]
    exact (reads_toCount hnanos).once.bind_pure fun _ => rfl
  have hfields := reads_record ["secs_since_epoch", "nanos_since_epoch"]
    (.cons hfirst (.cons hsecond (.nil _)))
  refine hfields.bind_pure fun rest => ?_
  rw [bind_of_ok (orFail_some t.seconds rest), bind_of_ok (orFail_some t.subsecond rest),
    ofParts?_parts h]
  rfl

/-- A record is read back, if its time is not before the epoch. -/
theorem Record.reads_json {r : Record} (hreceived : ReceiveTime.epoch ≤ r.stored.received)
    (hnumbers : ∀ x ∈ r.stored.family.numbers, x.isFinite = true → Survives x) :
    Reads Record.read r.json r.canonical := by
  obtain ⟨⟨⟨job, inst⟩, name⟩, received, family⟩ := r
  have hjob : Reads (Record.field {} "job") (quoted job) ⟨some job, none, none, none, none⟩ := by
    rw [Record.field, if_pos rfl]
    exact (reads_string job).once.bind_pure fun _ => rfl
  have hinst : Reads (Record.field ⟨some job, none, none, none, none⟩ "instance") (quoted inst)
      ⟨some job, some inst, none, none, none⟩ := by
    rw [Record.field, if_neg (by decide), if_pos rfl]
    exact (reads_string inst).once.bind_pure fun _ => rfl
  have hname : Reads (Record.field ⟨some job, some inst, none, none, none⟩ "name") (quoted name)
      ⟨some job, some inst, some name, none, none⟩ := by
    rw [Record.field, if_neg (by decide), if_neg (by decide), if_pos rfl]
    exact (reads_string name).once.bind_pure fun _ => rfl
  have htime : Reads (Record.field ⟨some job, some inst, some name, none, none⟩ "timestamp")
      received.json ⟨some job, some inst, some name, some received, none⟩ := by
    rw [Record.field, if_neg (by decide), if_neg (by decide), if_neg (by decide), if_pos rfl]
    exact (ReceiveTime.reads_json hreceived).once.bind_pure fun _ => rfl
  have hfamily : Reads
      (Record.field ⟨some job, some inst, some name, some received, none⟩ "metric_family") family.json
      ⟨some job, some inst, some name, some received, some family.canonical⟩ := by
    rw [Record.field, if_neg (by decide), if_neg (by decide), if_neg (by decide), if_neg (by decide),
      if_pos rfl]
    exact (Family.reads_json (by decide) hnumbers).once.bind_pure fun _ => rfl
  have hfields := reads_record Record.fieldNames
    (.cons hjob (.cons hinst (.cons hname (.cons htime (.cons hfamily (.nil _))))))
  exact hfields.bind_pure fun _ => rfl

namespace Checkpoint

theorem recordOf_json {r : Record} (h : Fits r.slot r.stored)
    (hnumbers : ∀ x ∈ r.stored.family.numbers, x.isFinite = true → Survives x) :
    recordOf r.json = .ok r.canonical :=
  recordOf_eq_ok_iff.mpr ⟨document_of_reads (Record.reads_json h.received hnumbers),
    Record.consistent_of_fits (r := r.canonical) h.canonical⟩

-- ── Whole checkpoints ───────────────────────────────────────────────────────

/-- The frames of records, one behind the other. -/
def framesOf (rs : List Record) : Bytes := (rs.map fun r => frame r.json).flatten

/-- The checkpoint of records. -/
def checkpointOf (rs : List Record) : Bytes :=
  header ++ framesOf rs ++ trailer rs.length (header ++ framesOf rs)

theorem encode_eq {c : Catalog} (hreceived : ∀ r ∈ records c, ReceiveTime.epoch ≤ r.stored.received)
    (hlengths : ∀ r ∈ records c, r.json.length < UInt32.size) :
    encode c = .ok (checkpointOf (records c)) := by
  have hframe : ∀ r ∈ records c, frameOf r = .ok (frame r.json) := by
    intro r hr
    have hepoch : ¬ r.stored.received.nanos < 0 := Int.not_lt.mpr (hreceived r hr)
    rw [frameOf, if_neg hepoch]
    dsimp only
    rw [if_pos (hlengths r hr)]
  refine bind_eq_ok.mpr ⟨_, mapM_of_ok hframe, ?_⟩
  rw [checkpointOf, framesOf]
  dsimp only
  rw [List.length_map]
  rfl

/-- What has a checkpoint has records with lengths of 32 bits. -/
theorem length_lt_of_encode {c : Catalog} {bytes : Bytes} (h : encode c = .ok bytes) :
    ∀ r ∈ records c, r.json.length < UInt32.size := by
  obtain ⟨frames, hframes, -⟩ := bind_eq_ok.mp h
  intro r hr
  obtain ⟨payload, hpayload⟩ := eq_ok_of_mapM hframes r hr
  rw [frameOf] at hpayload
  split at hpayload
  · cases hpayload
  · dsimp only at hpayload
    split at hpayload
    next hlength => exact hlength
    next => cases hpayload

/-- The checkpoint of records is laid out with their texts as payloads. -/
theorem checkpointOf_eq_sealed (rs : List Record) : checkpointOf rs = sealed (rs.map Record.json) := by
  have hframes : framesOf rs = framed (rs.map Record.json) := by
    rw [framesOf, framed, List.map_map]
    rfl
  rw [checkpointOf, sealed, body, hframes, List.length_map]

/-- Records that can be read and have slots of their own are read from their checkpoint. -/
theorem decode_checkpointOf {rs : List Record} (hlengths : ∀ r ∈ rs, r.json.length < UInt32.size)
    (hrecords : ∀ r ∈ rs, recordOf r.json = .ok r.canonical) (hnodup : (rs.map (·.slot)).Nodup) :
    decode (checkpointOf rs)
      = .ok (Catalog.empty.insertAll (rs.map fun r => (r.slot, r.stored.canonical))) := by
  have hholds : List.Forall₂ Holds (rs.map Record.json) (rs.map Record.canonical) := by
    rw [List.forall₂_map_left_iff, List.forall₂_map_right_iff, List.forall₂_same]
    intro r hr
    obtain ⟨hread, hconsistent⟩ := recordOf_eq_ok_iff.mp (hrecords r hr)
    -- no record is empty, so its length is not taken for the marker
    exact ⟨List.length_pos_of_ne_nil (fun h => nomatch h), hlengths r hr, hread, hconsistent⟩
  have hslots : ((rs.map Record.canonical).map (·.slot)).Nodup := by
    rw [List.map_map]
    exact hnodup
  rw [decode_of_laidOut ⟨checkpointOf_eq_sealed rs, hholds, hslots⟩, catalogOf, List.map_map]
  rfl

/-- A sound catalog is held by its checkpoint. -/
theorem decode_encode_of_sound {c : Catalog} (hsound : c.Sound)
    (hlengths : ∀ r ∈ records c, r.json.length < UInt32.size)
    (hnumbers : ∀ r ∈ records c, ∀ x ∈ r.stored.family.numbers, x.isFinite = true → Survives x) :
    encode c = .ok (checkpointOf (records c)) ∧
      ∃ d, decode (checkpointOf (records c)) = .ok d ∧
        ∀ s, d.get? s = (c.get? s).map Stored.canonical := by
  have hfits : ∀ r ∈ records c, Fits r.slot r.stored := by
    intro r hr
    obtain ⟨⟨slot, stored⟩, hslot, rfl⟩ := List.mem_map.mp hr
    exact hsound.stored slot stored (Catalog.mem_slots.mp hslot)
  have hslots : ((records c).map (·.slot)).Nodup := by
    rw [records, List.map_map]
    exact c.nodup_slots
  have hdecode := decode_checkpointOf hlengths
    (fun r hr => recordOf_json (hfits r hr) (hnumbers r hr)) hslots
  refine ⟨encode_eq (fun r hr => (hfits r hr).received) hlengths, _, hdecode, ?_⟩
  intro s
  rw [records, List.map_map]
  exact c.get?_insertAll_slots Stored.canonical s

/-- What is read from the checkpoint of a sound catalog tells every slot. -/
theorem decode_of_encode {c : Catalog} {bytes : Bytes} (hsound : c.Sound) (hencode : encode c = .ok bytes)
    (hnumbers : ∀ r ∈ records c, ∀ x ∈ r.stored.family.numbers, x.isFinite = true → Survives x) :
    ∃ d, decode bytes = .ok d ∧ ∀ s, d.get? s = (c.get? s).map Stored.canonical := by
  obtain ⟨hbytes, hread⟩ := decode_encode_of_sound hsound (length_lt_of_encode hencode) hnumbers
  obtain rfl := Except.ok.inj (hencode.symm.trans hbytes)
  exact hread

end Checkpoint

namespace Catalog

open Checkpoint

/-- **A checkpoint holds its catalog.** Whatever requests a catalog was made by, if its records
    have lengths of 32 bits, and the finite numbers in it survive their texts: it has a
    checkpoint, and from the checkpoint is read a catalog with the same slots, in each a family
    that was received at the same time and is the same but for its NaNs, which are one. -/
theorem decode_encode (requests : List Request)
    (hlengths : ∀ r ∈ records (empty.applyAll requests), r.json.length < UInt32.size)
    (hnumbers : ∀ r ∈ records (empty.applyAll requests), ∀ x ∈ r.stored.family.numbers,
      x.isFinite = true → Survives x) :
    ∃ bytes d, encode (empty.applyAll requests) = .ok bytes ∧ decode bytes = .ok d ∧
      ∀ s, d.get? s = ((empty.applyAll requests).get? s).map Stored.canonical := by
  obtain ⟨hencode, d, hdecode, hd⟩ :=
    decode_encode_of_sound (sound_empty.applyAll requests) hlengths hnumbers
  exact ⟨_, d, hencode, hdecode, hd⟩

/-- A push before the epoch, with a number, an infinity, a NaN and the greatest count. -/
def mixedPush : List Request :=
  [.push ⟨"job", "one"⟩ ⟨-1, by decide, by decide⟩
    [⟨"sizes", "of \"things\"", .histogram, [⟨SortedMap.ofList [("instance", "one"), ("job", "job")],
      .histogram 18446744073709551615 ⟨0x7FF8000000000001⟩
        [⟨⟨0x3FF8000000000000⟩, 2⟩, ⟨Binary64.infinity false, 3⟩], some (-5)⟩]⟩]]

theorem decode_encode_mixedPush :
    ∃ bytes d, encode (empty.applyAll mixedPush) = .ok bytes ∧ decode bytes = .ok d ∧
      ∀ s, d.get? s = ((empty.applyAll mixedPush).get? s).map Stored.canonical :=
  decode_encode mixedPush (by decide +kernel) (by decide +kernel)

end Catalog

end MetricDepot
