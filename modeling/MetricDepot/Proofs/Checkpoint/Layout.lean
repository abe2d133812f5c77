import MetricDepot.Checkpoint.Format
import MetricDepot.Proofs.Answer
import MetricDepot.Proofs.Catalog.Slots
import MetricDepot.Proofs.Family.Admitted
/-!
# Layout — what a checkpoint is, byte for byte

    A byte string is laid out as a checkpoint of some records when it is a header, one frame
    for each record, and a trailer: each frame has a payload that holds the record, and no two
    records have one slot.  This says nothing of how the bytes are read.

    Reading bytes that are laid out so gives the catalog of the records (`decode_of_laidOut`),
    and bytes that can be read are laid out so (`laidOut_of_decode`).  Both go the same way:
    `readFrames_framed` takes the reader across the frames of records that fill free slots,
    whatever stands behind them, and `conclude` is what is left to decide at the trailer.
-/

namespace MetricDepot

-- ── Records ─────────────────────────────────────────────────────────────────

namespace Record

/-- A record whose family has no flaw, bears the name of the slot, and holds only samples of its
    group. -/
structure Consistent (r : Record) : Prop where
  valid : r.stored.family.isValid = true
  named : r.stored.family.name = r.slot.name
  belongs : ∀ sample ∈ r.stored.family.samples,
    sample.label "job" = r.slot.group.job ∧ sample.label "instance" = r.slot.group.inst

/-- What is wrong with a record is that it is not consistent. -/
theorem damage?_eq_none_iff {r : Record} : r.damage? = none ↔ r.Consistent := by
  rw [damage?]
  cases hflaw : r.stored.family.flaw? with
  | some flaw =>
    refine ⟨fun h => (nomatch h), fun h => ?_⟩
    have hvalid := h.valid
    rw [Family.isValid, hflaw] at hvalid
    cases hvalid
  | none =>
    dsimp only
    constructor
    · intro h
      split at h
      · cases h
      next hname =>
        split at h
        · cases h
        next hrejected =>
          refine ⟨?_, Classical.not_not.mp hname,
            Family.rejected_eq_zero_iff.mp (Nat.eq_zero_of_not_pos hrejected)⟩
          rw [Family.isValid, hflaw]
          rfl
    · intro h
      rw [if_neg (fun hne => hne h.named), Family.rejected_eq_zero_iff.mpr h.belongs,
        if_neg (Nat.lt_irrefl 0)]

/-- A record as an entry of a listing. -/
def entry (r : Record) : Slot × Stored := (r.slot, r.stored)

end Record

namespace Checkpoint

theorem recordOf_eq_ok_iff {payload : Bytes} {r : Record} :
    recordOf payload = .ok r ↔ Json.document Record.read payload = .ok r ∧ r.Consistent := by
  rw [recordOf]
  cases Json.document Record.read payload with
  | error fault => exact ⟨fun h => (nomatch h), fun h => (nomatch h.1)⟩
  | ok held =>
    dsimp only
    constructor
    · intro h
      split at h
      · cases h
      next hundamaged =>
        obtain rfl := Except.ok.inj h
        exact ⟨rfl, Record.damage?_eq_none_iff.mp hundamaged⟩
    · rintro ⟨hheld, hconsistent⟩
      obtain rfl := Except.ok.inj hheld
      rw [Record.damage?_eq_none_iff.mpr hconsistent]

-- ── Layout ──────────────────────────────────────────────────────────────────

/-- A payload holds a record: it has a length that is not zero and fits 32 bits, and is JSON text
    of the record, which is consistent. -/
structure Holds (payload : Bytes) (r : Record) : Prop where
  present : 0 < payload.length
  short : payload.length < UInt32.size
  read : Json.document Record.read payload = .ok r
  consistent : r.Consistent

/-- The frames of payloads, one behind the other. -/
def framed (payloads : List Bytes) : Bytes := (payloads.map frame).flatten

/-- Header and frames, which is what the digest is taken of. -/
def body (payloads : List Bytes) : Bytes := header ++ framed payloads

/-- Header, frames and trailer. -/
def sealed (payloads : List Bytes) : Bytes :=
  body payloads ++ trailer payloads.length (body payloads)

/-- Bytes that are laid out as a checkpoint of records. -/
structure LaidOut (bytes : Bytes) (payloads : List Bytes) (rs : List Record) : Prop where
  bytes_eq : bytes = sealed payloads
  holds : List.Forall₂ Holds payloads rs
  distinct : (rs.map (·.slot)).Nodup

/-- The catalog that holds records and nothing else. -/
def catalogOf (rs : List Record) : Catalog := Catalog.empty.insertAll (rs.map Record.entry)

theorem framed_cons (payload : Bytes) (payloads : List Bytes) :
    framed (payload :: payloads) = frame payload ++ framed payloads := rfl

theorem length_frame (payload : Bytes) : (frame payload).length = 4 + payload.length := by
  rw [frame, List.length_append, Bytes.length_word]

theorem length_body (payloads : List Bytes) :
    (body payloads).length = 12 + (framed payloads).length := List.length_append

/-- A checkpoint has as many bytes as payloads at least. -/
theorem length_le_framed (payloads : List Bytes) : payloads.length ≤ (framed payloads).length := by
  induction payloads with
  | nil => exact Nat.le_refl 0
  | cons payload payloads ih =>
    rw [framed_cons, List.length_append, length_frame, List.length_cons]
    omega

-- ── Fields ──────────────────────────────────────────────────────────────────

theorem take_append {field : Bytes} {n : Nat} (h : field.length = n) (rest : Bytes) (offset : Nat) :
    Cursor.take ⟨offset, field ++ rest⟩ n = .ok (field, ⟨offset + n, rest⟩) := by
  subst h
  rw [Cursor.take]
  dsimp only
  rw [List.take_left, if_pos rfl, List.drop_left]

theorem eq_append_of_take {cur next : Cursor} {n : Nat} {field : Bytes}
    (h : cur.take n = .ok (field, next)) : field.length = n ∧ cur.rest = field ++ next.rest := by
  rw [Cursor.take] at h
  split at h
  next hlength =>
    obtain ⟨rfl, rfl⟩ := Prod.mk.inj (Except.ok.inj h)
    exact ⟨hlength, (List.take_append_drop n cur.rest).symm⟩
  next => cases h

theorem takeWord_append {field : Bytes} {width : Nat} (h : field.length = width) (rest : Bytes)
    (offset : Nat) :
    Cursor.takeWord ⟨offset, field ++ rest⟩ width
      = .ok (Bytes.ofWord field, ⟨offset + width, rest⟩) :=
  bind_eq_of_ok (take_append h rest offset) rfl

theorem takeWord_word {width n : Nat} (h : n < Nat.pow 256 width) (rest : Bytes) (offset : Nat) :
    Cursor.takeWord ⟨offset, Bytes.word width n ++ rest⟩ width = .ok (n, ⟨offset + width, rest⟩) := by
  rw [takeWord_append (Bytes.length_word width n), Bytes.ofWord_word, Nat.mod_eq_of_lt h]

theorem eq_word_of_takeWord {cur next : Cursor} {width n : Nat}
    (h : cur.takeWord width = .ok (n, next)) :
    n < Nat.pow 256 width ∧ cur.rest = Bytes.word width n ++ next.rest := by
  obtain ⟨⟨field, behind⟩, hfield, h⟩ := bind_eq_ok.mp h
  obtain ⟨rfl, rfl⟩ := Prod.mk.inj (Except.ok.inj h)
  obtain ⟨rfl, hrest⟩ := eq_append_of_take hfield
  exact ⟨Bytes.ofWord_lt field, by rw [Bytes.word_ofWord, hrest]⟩

-- ── Frames ──────────────────────────────────────────────────────────────────

/-- A frame whose payload holds a record of a free slot is read, and the record put in. -/
theorem readFrames_frame {payload : Bytes} {r : Record} {c : Catalog} (hholds : Holds payload r)
    (hfree : c.get? r.slot = none) (fuel count offset : Nat) (rest : Bytes) :
    readFrames (fuel + 1) c count ⟨offset, frame payload ++ rest⟩
      = readFrames fuel (c.insert r.slot r.stored) (count + 1)
          ⟨offset + (frame payload).length, rest⟩ := by
  have hinsert : insertRecord c payload = .ok (c.insert r.slot r.stored) := by
    refine bind_eq_ok.mpr
      ⟨r, recordOf_eq_ok_iff.mpr ⟨hholds.read, hholds.consistent⟩, guard_eq_ok.mpr ⟨?_, rfl⟩⟩
    rw [hfree]
    exact Bool.false_ne_true
  rw [length_frame, ← Nat.add_assoc, frame, List.append_assoc]
  refine bind_eq_of_ok (takeWord_word hholds.short _ offset) ?_
  dsimp only
  rw [if_neg (Nat.pos_iff_ne_zero.mp hholds.present)]
  refine bind_eq_of_ok (take_append rfl rest (offset + 4)) ?_
  dsimp only
  rw [hinsert]

/-- The end marker ends the frames. -/
theorem readFrames_marker (fuel : Nat) (c : Catalog) (count offset : Nat) (rest : Bytes) :
    readFrames (fuel + 1) c count ⟨offset, Bytes.word 4 0 ++ rest⟩
      = .ok ⟨c, count, offset, ⟨offset + 4, rest⟩⟩ :=
  bind_eq_of_ok (takeWord_word (by decide) rest offset) rfl

/-- Payloads that hold records whose slots are free in a catalog when their turn comes. -/
inductive Fills : Catalog → List Bytes → List Record → Prop where
  | nil (c : Catalog) : Fills c [] []
  | cons {c : Catalog} {payload : Bytes} {r : Record} {payloads : List Bytes} {rs : List Record}
      (hholds : Holds payload r) (hfree : c.get? r.slot = none)
      (hrest : Fills (c.insert r.slot r.stored) payloads rs) :
      Fills c (payload :: payloads) (r :: rs)

/-- A slot is free when its turn comes if it was free before and no record before has it. -/
theorem fills_iff {c : Catalog} {payloads : List Bytes} {rs : List Record} :
    Fills c payloads rs ↔ List.Forall₂ Holds payloads rs ∧ (∀ r ∈ rs, c.get? r.slot = none) ∧
      (rs.map (·.slot)).Nodup := by
  constructor
  · intro h
    induction h with
    | nil => exact ⟨.nil, (fun _ hr => nomatch hr), .nil⟩
    | @cons c payload r payloads rs hholds hfree _ ih =>
      obtain ⟨hothers, hstill, hdistinct⟩ := ih
      have hslots : ∀ other ∈ rs, other.slot ≠ r.slot ∧ c.get? other.slot = none := by
        intro other hother
        have hnone := hstill other hother
        rw [Catalog.get?_insert] at hnone
        split at hnone
        · cases hnone
        next hslot => exact ⟨hslot, hnone⟩
      refine ⟨.cons hholds hothers, ?_, List.nodup_cons.mpr ⟨fun hmem => ?_, hdistinct⟩⟩
      · exact List.forall_mem_cons.mpr ⟨hfree, fun other hother => (hslots other hother).2⟩
      · obtain ⟨other, hother, heq⟩ := List.mem_map.mp hmem
        exact (hslots other hother).1 heq
  · rintro ⟨hholds, hfree, hdistinct⟩
    induction hholds generalizing c with
    | nil => exact .nil c
    | @cons payload r payloads rs hholds _ ih =>
      obtain ⟨hfresh, hdistinct⟩ := List.nodup_cons.mp hdistinct
      obtain ⟨hfirst, hothers⟩ := List.forall_mem_cons.mp hfree
      refine .cons hholds hfirst (ih (fun other hother => ?_) hdistinct)
      have hslot : other.slot ≠ r.slot := fun heq => hfresh (List.mem_map.mpr ⟨other, hother, heq⟩)
      rw [Catalog.get?_insert, if_neg hslot]
      exact hothers other hother

/-- **The reader crosses frames.** Whatever stands behind the frames of records with free slots,
    reading goes on there with the records put in. -/
theorem readFrames_framed {c : Catalog} {payloads : List Bytes} {rs : List Record}
    (h : Fills c payloads rs) (fuel count offset : Nat) (rest : Bytes) :
    readFrames (fuel + payloads.length) c count ⟨offset, framed payloads ++ rest⟩
      = readFrames fuel (c.insertAll (rs.map Record.entry)) (count + payloads.length)
          ⟨offset + (framed payloads).length, rest⟩ := by
  induction h generalizing count offset with
  | nil => rfl
  | @cons c payload r payloads rs hholds hfree _ ih =>
    have hcount : count + (payload :: payloads).length = count + 1 + payloads.length := by
      rw [List.length_cons, Nat.add_assoc, Nat.add_comm 1]
    rw [hcount, framed_cons, List.append_assoc, List.length_append, ← Nat.add_assoc offset]
    show readFrames (fuel + payloads.length + 1) c count _ = _
    rw [readFrames_frame hholds hfree, ih]
    rfl

/-- What was read as frames is frames, and the end marker behind them. -/
theorem framed_of_readFrames {fuel : Nat} {c : Catalog} {count : Nat} {cur : Cursor} {frames : Frames}
    (h : readFrames fuel c count cur = .ok frames) :
    ∃ payloads rs rest, Fills c payloads rs ∧
      cur.rest = framed payloads ++ (Bytes.word 4 0 ++ rest) := by
  induction fuel generalizing c count cur with
  | zero => cases h
  | succ fuel ih =>
    obtain ⟨⟨length, afterLength⟩, hlength, h⟩ := bind_eq_ok.mp h
    obtain ⟨hshort, hcur⟩ := eq_word_of_takeWord hlength
    dsimp only at h
    split at h
    next hzero =>
      subst hzero
      exact ⟨[], [], afterLength.rest, .nil c, hcur⟩
    next hne =>
      obtain ⟨⟨payload, next⟩, hpayload, hgoes⟩ := bind_eq_ok.mp h
      obtain ⟨rfl, hafter⟩ := eq_append_of_take hpayload
      dsimp only at hgoes
      split at hgoes
      · cases hgoes
      next d hinsert =>
        obtain ⟨r, hrecord, hinsert⟩ := bind_eq_ok.mp hinsert
        obtain ⟨hfree, hinsert⟩ := guard_eq_ok.mp hinsert
        obtain rfl := Except.ok.inj hinsert
        obtain ⟨hread, hconsistent⟩ := recordOf_eq_ok_iff.mp hrecord
        obtain ⟨payloads, rs, rest, hfills, hnext⟩ := ih hgoes
        refine ⟨payload :: payloads, r :: rs, rest,
          .cons ⟨Nat.pos_of_ne_zero hne, hshort, hread, hconsistent⟩
            (Option.not_isSome_iff_eq_none.mp hfree) hfills, ?_⟩
        rw [hcur, hafter, hnext, framed_cons, frame]
        simp only [List.append_assoc]

-- ── Header and trailer ──────────────────────────────────────────────────────

/-- What is decided when the frames have been read: the count and the digest must be there, fit
    what was read, and be the last of the bytes. -/
def conclude (bytes : Bytes) (frames : Frames) : Except Fault Catalog := do
  let (count, cur) ← frames.behind.takeWord 8
  let (digest, cur) ← cur.take 32
  if Sha256.digest (bytes.take frames.marker) ≠ digest then throw .checksumMismatch
  let found := frames.count % UInt64.size
  if count ≠ found then throw (.countMismatch count found)
  if cur.rest ≠ [] then throw (.corrupt cur.offset .trailing)
  return frames.catalog

theorem decode_header (rest : Bytes) :
    decode (header ++ rest) =
      (readFrames ((header ++ rest).length + 1) .empty 0 ⟨12, rest⟩ >>= conclude (header ++ rest)) :=
  rfl

/-- What is read begins with a header, and then come frames. -/
theorem header_of_decode {bytes : Bytes} {c : Catalog} (h : decode bytes = .ok c) :
    ∃ rest, bytes = header ++ rest := by
  obtain ⟨⟨name, afterName⟩, hname, h⟩ := bind_eq_ok.mp h
  obtain ⟨hmagic, h⟩ := guard_eq_ok.mp h
  obtain ⟨⟨number, afterNumber⟩, hnumber, h⟩ := bind_eq_ok.mp h
  obtain ⟨hversion, -⟩ := guard_eq_ok.mp h
  have hbytes : bytes = name ++ afterName.rest := (eq_append_of_take hname).2
  refine ⟨afterNumber.rest, ?_⟩
  rw [hbytes, (eq_word_of_takeWord hnumber).2, Classical.not_not.mp hmagic,
    Classical.not_not.mp hversion, header, List.append_assoc]

variable {payloads : List Bytes} {rs : List Record}

/-- Behind the frames of records, all that is left to decide is the trailer. -/
theorem decode_body (h : Fills .empty payloads rs) (rest : Bytes) :
    decode (body payloads ++ (Bytes.word 4 0 ++ rest))
      = conclude (body payloads ++ (Bytes.word 4 0 ++ rest))
          ⟨catalogOf rs, payloads.length, (body payloads).length,
            ⟨(body payloads).length + 4, rest⟩⟩ := by
  rw [length_body, body, List.append_assoc]
  have hfuel : payloads.length ≤ (header ++ (framed payloads ++ (Bytes.word 4 0 ++ rest))).length := by
    have hframes := length_le_framed payloads
    simp only [List.length_append]
    omega
  obtain ⟨more, hmore⟩ := Nat.exists_eq_add_of_le' hfuel
  have hread : readFrames ((header ++ (framed payloads ++ (Bytes.word 4 0 ++ rest))).length + 1) .empty 0
      ⟨12, framed payloads ++ (Bytes.word 4 0 ++ rest)⟩
      = .ok ⟨catalogOf rs, payloads.length, 12 + (framed payloads).length,
          ⟨12 + (framed payloads).length + 4, rest⟩⟩ := by
    rw [hmore, Nat.add_right_comm, readFrames_framed h, readFrames_marker, Nat.zero_add]
    rfl
  rw [decode_header]
  exact bind_eq_of_ok hread rfl

/-- What the bytes behind the end marker come to: a count, a digest, and more than that. -/
theorem decode_fields (h : Fills .empty payloads rs) {count digest : Bytes} (hcount : count.length = 8)
    (hdigest : digest.length = 32) (more : Bytes) :
    decode (body payloads ++ (Bytes.word 4 0 ++ (count ++ (digest ++ more)))) =
      if Sha256.digest (body payloads) ≠ digest then .error .checksumMismatch
      else if Bytes.ofWord count ≠ payloads.length % UInt64.size then
        .error (.countMismatch (Bytes.ofWord count) (payloads.length % UInt64.size))
      else if more ≠ [] then .error (.corrupt ((body payloads).length + 44) .trailing)
      else .ok (catalogOf rs) := by
  rw [decode_body h]
  refine bind_eq_of_ok (takeWord_append hcount _ _) ?_
  refine bind_eq_of_ok (take_append hdigest _ _) ?_
  dsimp only
  rw [List.take_left]
  split
  · rfl
  · split
    · rfl
    · split
      · rfl
      · rfl

theorem sealed_eq (payloads : List Bytes) :
    sealed payloads = body payloads ++ (Bytes.word 4 0 ++
      (Bytes.word 8 payloads.length ++ Sha256.digest (body payloads))) := by
  rw [sealed, trailer, List.append_assoc]

theorem length_sealed (payloads : List Bytes) :
    (sealed payloads).length = (body payloads).length + 44 := by
  rw [sealed_eq]
  simp only [List.length_append, Bytes.length_word, Sha256.length_digest]

theorem ofWord_count (payloads : List Bytes) :
    Bytes.ofWord (Bytes.word 8 payloads.length) = payloads.length % UInt64.size :=
  Bytes.ofWord_word 8 payloads.length

/-- Records of a layout fill slots of the empty catalog. -/
theorem LaidOut.fills {bytes : Bytes} (h : LaidOut bytes payloads rs) : Fills .empty payloads rs :=
  fills_iff.mpr ⟨h.holds, fun _ _ => rfl, h.distinct⟩

/-- Bytes that are laid out as a checkpoint are read, and what is read holds the records. -/
theorem decode_of_laidOut {bytes : Bytes} (h : LaidOut bytes payloads rs) :
    decode bytes = .ok (catalogOf rs) := by
  have hread := decode_fields h.fills (Bytes.length_word 8 payloads.length)
    (Sha256.length_digest (body payloads)) []
  rw [if_neg (fun hne => hne rfl), if_neg (fun hne => hne (ofWord_count payloads)),
    if_neg (fun hne => hne rfl), List.append_nil] at hread
  rw [h.bytes_eq, sealed_eq, hread]

/-- Bytes that are read are laid out as a checkpoint, and what is read holds the records. -/
theorem laidOut_of_decode {bytes : Bytes} {c : Catalog} (h : decode bytes = .ok c) :
    ∃ payloads rs, LaidOut bytes payloads rs ∧ c = catalogOf rs := by
  obtain ⟨rest, rfl⟩ := header_of_decode h
  rw [decode_header] at h
  obtain ⟨frames, hframes, -⟩ := bind_eq_ok.mp h
  obtain ⟨payloads, rs, behind, hfills, hrest⟩ := framed_of_readFrames hframes
  have hrest : rest = framed payloads ++ (Bytes.word 4 0 ++ behind) := hrest
  have hbytes : header ++ rest = body payloads ++ (Bytes.word 4 0 ++ behind) := by
    rw [hrest, body, List.append_assoc]
  rw [← decode_header, hbytes, decode_body hfills] at h
  rw [hbytes]
  -- what is behind the marker is a count and a digest that fit, and no more
  obtain ⟨⟨count, afterCount⟩, hcount, h⟩ := bind_eq_ok.mp h
  obtain ⟨⟨digest, afterDigest⟩, hdigest, h⟩ := bind_eq_ok.mp h
  dsimp only at h
  obtain ⟨hsame, h⟩ := guard_eq_ok.mp h
  obtain ⟨hfound, h⟩ := guard_eq_ok.mp h
  obtain ⟨hlast, h⟩ := guard_eq_ok.mp h
  have hbehind : behind = Bytes.word 8 count ++ afterCount.rest := (eq_word_of_takeWord hcount).2
  have hafter : afterCount.rest = digest ++ afterDigest.rest := (eq_append_of_take hdigest).2
  have hword : Bytes.word 8 count = Bytes.word 8 payloads.length := by
    rw [Classical.not_not.mp hfound]
    exact Bytes.word_mod 8 payloads.length
  obtain ⟨hholds, -, hdistinct⟩ := fills_iff.mp hfills
  refine ⟨payloads, rs, ⟨?_, hholds, hdistinct⟩, (Except.ok.inj h).symm⟩
  rw [List.take_left] at hsame
  rw [hbehind, hafter, Classical.not_not.mp hlast, List.append_nil, ← Classical.not_not.mp hsame, hword,
    sealed_eq]

end Checkpoint

end MetricDepot
