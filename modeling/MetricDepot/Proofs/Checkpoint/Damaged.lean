import MetricDepot.Proofs.Checkpoint.Accepted
/-!
# Damaged bytes — what becomes of a checkpoint that was cut, extended or changed

    A checkpoint is a sequence of fields.  Cut anywhere, it fails at the first field that is not
    there in full, and it never passes for a smaller checkpoint: what is read before the cut is
    what was read of the whole.  With bytes behind it, it fails there.

    The digest is taken of everything before the end marker, and that fixes what is behind: the
    marker is always the same, the count follows from the frames, and nothing comes after the
    digest.  So two checkpoints with one digest are equal, or else two different byte strings
    have the same digest.  A count or a digest that was changed alone is noticed as such.
-/

namespace MetricDepot.Checkpoint

variable {payloads : List Bytes} {rs : List Record}

-- ── Fields ──────────────────────────────────────────────────────────────────

/-- The fields of frames: of each the length and the payload. -/
def frameFields (payloads : List Bytes) : List Bytes :=
  payloads.flatMap fun payload => [Bytes.word 4 payload.length, payload]

/-- The fields of a checkpoint, in order. The length zero that ends the frames is one of them. -/
def fields (payloads : List Bytes) : List Bytes :=
  [magic, Bytes.word 4 version] ++ (frameFields payloads ++
    [Bytes.word 4 0, Bytes.word 8 payloads.length, Sha256.digest (body payloads)])

/-- The place at which the first of some fields begins that does not fit into so many bytes. -/
def firstUnfit : (room : Nat) → List Bytes → Nat
  | _, [] => 0
  | room, field :: rest =>
      if room < field.length then 0 else field.length + firstUnfit (room - field.length) rest

theorem frameFields_cons (payload : Bytes) (payloads : List Bytes) :
    frameFields (payload :: payloads)
      = Bytes.word 4 payload.length :: payload :: frameFields payloads := rfl

theorem flatten_frameFields (payloads : List Bytes) :
    (frameFields payloads).flatten = framed payloads := by
  induction payloads with
  | nil => rfl
  | cons payload payloads ih =>
    rw [frameFields_cons, List.flatten_cons, List.flatten_cons, ih, framed_cons, frame,
      List.append_assoc]

/-- The fields make up the checkpoint. -/
theorem flatten_fields (payloads : List Bytes) : (fields payloads).flatten = sealed payloads := by
  rw [fields, List.flatten_append, List.flatten_append, flatten_frameFields, sealed_eq, body]
  simp only [header, List.flatten_cons, List.flatten_nil, List.append_nil, List.append_assoc]

theorem firstUnfit_of_lt {room : Nat} {field : Bytes} (h : room < field.length) (rest : List Bytes) :
    firstUnfit room (field :: rest) = 0 := if_pos h

theorem firstUnfit_of_le {room : Nat} {field : Bytes} (h : field.length ≤ room) (rest : List Bytes) :
    firstUnfit room (field :: rest) = field.length + firstUnfit (room - field.length) rest :=
  if_neg (Nat.not_lt.mpr h)

/-- Fields that fit are passed over. -/
theorem firstUnfit_append {before : List Bytes} {room : Nat} (h : before.flatten.length ≤ room)
    (behind : List Bytes) :
    firstUnfit room (before ++ behind)
      = before.flatten.length + firstUnfit (room - before.flatten.length) behind := by
  induction before generalizing room with
  | nil => exact (Nat.zero_add _).symm
  | cons field before ih =>
    rw [List.flatten_cons, List.length_append] at h
    rw [List.cons_append, firstUnfit_of_le (by omega), ih (by omega), List.flatten_cons,
      List.length_append, Nat.sub_sub, Nat.add_assoc]

-- ── Cuts ────────────────────────────────────────────────────────────────────

/-- A field is not read from bytes that end within it. -/
theorem take_cut {room n : Nat} (h : room < n) (bytes : Bytes) (offset : Nat) :
    Cursor.take ⟨offset, bytes.take room⟩ n = .error (.truncated offset) := by
  have hshort : ((bytes.take room).take n).length ≠ n := by
    rw [List.length_take, List.length_take]
    omega
  rw [Cursor.take]
  exact if_neg hshort

theorem takeWord_cut {room width : Nat} (h : room < width) (bytes : Bytes) (offset : Nat) :
    Cursor.takeWord ⟨offset, bytes.take room⟩ width = .error (.truncated offset) :=
  bind_eq_of_error (take_cut h bytes offset)

theorem take_append_of_le {field : Bytes} {room : Nat} (h : field.length ≤ room) (rest : Bytes) :
    (field ++ rest).take room = field ++ rest.take (room - field.length) := by
  rw [List.take_append, List.take_of_length_le h]

/-- **Cut frames.** Frames that end before their end marker does fail at the first field that is
    not there in full, whatever was behind the marker. -/
theorem readFrames_cut {c : Catalog} (h : Fills c payloads rs) {fuel room : Nat} (hfuel : room < fuel)
    (hroom : room < (framed payloads).length + 4) (count offset : Nat) (rest : Bytes)
    (behind : List Bytes) :
    readFrames fuel c count ⟨offset, (framed payloads ++ (Bytes.word 4 0 ++ rest)).take room⟩
      = .error (.truncated
          (offset + firstUnfit room (frameFields payloads ++ (Bytes.word 4 0 :: behind)))) := by
  induction h generalizing fuel room count offset with
  | nil c =>
    obtain ⟨fuel, rfl⟩ := Nat.exists_eq_succ_of_ne_zero (Nat.ne_zero_of_lt hfuel)
    have hmarker : room < 4 := by
      rw [Nat.add_comm] at hroom
      exact hroom
    have hfirst : firstUnfit room (frameFields [] ++ (Bytes.word 4 0 :: behind)) = 0 :=
      firstUnfit_of_lt hmarker behind
    rw [hfirst]
    exact bind_eq_of_error (takeWord_cut hmarker _ offset)
  | @cons c payload r payloads rs hholds hfree _ ih =>
    obtain ⟨fuel, rfl⟩ := Nat.exists_eq_succ_of_ne_zero (Nat.ne_zero_of_lt hfuel)
    rw [framed_cons, List.length_append, length_frame] at hroom
    rw [framed_cons, List.append_assoc, frameFields_cons, List.cons_append, List.cons_append]
    by_cases hlength : room < 4
    · rw [firstUnfit_of_lt hlength]
      exact bind_eq_of_error (takeWord_cut hlength _ offset)
    have hword : (Bytes.word 4 payload.length).length ≤ room := Nat.not_lt.mp hlength
    by_cases hpayload : room - 4 < payload.length
    · rw [frame, List.append_assoc, take_append_of_le hword, firstUnfit_of_le hword,
        Bytes.length_word, firstUnfit_of_lt hpayload]
      refine bind_eq_of_ok (takeWord_word hholds.short _ offset) ?_
      dsimp only
      rw [if_neg (Nat.pos_iff_ne_zero.mp hholds.present)]
      exact bind_eq_of_error (take_cut hpayload _ (offset + 4))
    · have hframe : (frame payload).length = 4 + payload.length := length_frame payload
      have hwhole : (frame payload).length ≤ room := by omega
      have hless : room - (frame payload).length < fuel := by omega
      have hwithin : room - (frame payload).length < (framed payloads).length + 4 := by omega
      rw [take_append_of_le hwhole, readFrames_frame hholds hfree, ih hless hwithin,
        firstUnfit_of_le hword, Bytes.length_word, firstUnfit_of_le (Nat.not_lt.mp hpayload),
        hframe, Nat.sub_sub, Nat.add_assoc, Nat.add_assoc]

/-- A trailer that ends too early fails at its count or at its digest. -/
theorem conclude_cut {room : Nat} (hroom : room < 40) (bytes : Bytes) (c : Catalog) (n marker offset : Nat)
    {count digest : Bytes} (hcount : count.length = 8) (hdigest : digest.length = 32) :
    conclude bytes ⟨c, n, marker, ⟨offset, (count ++ digest).take room⟩⟩
      = .error (.truncated (offset + firstUnfit room [count, digest])) := by
  by_cases hshort : room < 8
  · have hfirst : firstUnfit room [count, digest] = 0 := firstUnfit_of_lt (by omega) [digest]
    rw [hfirst]
    exact bind_eq_of_error (takeWord_cut hshort _ offset)
  · have hfits : count.length ≤ room := by omega
    have hrest : room - count.length < digest.length := by omega
    rw [take_append_of_le hfits, firstUnfit_of_le hfits, firstUnfit_of_lt hrest]
    refine bind_eq_of_ok (takeWord_append hcount _ offset) ?_
    rw [hcount]
    exact bind_eq_of_error (take_cut (by omega) digest (offset + 8))

/-- A checkpoint that ends within its header fails at the magic bytes or at the version. -/
theorem decode_cut_header {cut : Nat} (hcut : cut < 12) (rest : Bytes) (behind : List Bytes) :
    decode ((header ++ rest).take cut)
      = .error (.truncated (firstUnfit cut (magic :: Bytes.word 4 version :: behind))) := by
  by_cases hmagic : cut < 8
  · rw [firstUnfit_of_lt hmagic]
    exact bind_eq_of_error (take_cut hmagic _ 0)
  · have hname : magic.length ≤ cut := Nat.not_lt.mp hmagic
    have hnumber : cut - magic.length < 4 := by
      rw [show magic.length = 8 from rfl]
      omega
    rw [firstUnfit_of_le hname, firstUnfit_of_lt hnumber, header, List.append_assoc,
      take_append_of_le hname]
    refine bind_eq_of_ok (take_append rfl _ 0) ?_
    exact bind_eq_of_error (takeWord_cut hnumber _ 8)

/-- A checkpoint that ends behind its header and before its end marker does fails at a field of
    its frames, or at the marker. -/
theorem decode_cut_frames (h : Fills .empty payloads rs) {cut : Nat} (hheader : 12 ≤ cut)
    (hcut : cut < (body payloads).length + 4) (rest : Bytes) (behind : List Bytes) :
    decode ((body payloads ++ (Bytes.word 4 0 ++ rest)).take cut)
      = .error (.truncated (12 + firstUnfit (cut - 12) (frameFields payloads ++
          (Bytes.word 4 0 :: behind)))) := by
  rw [length_body] at hcut
  have hroom : cut - 12 < (framed payloads).length + 4 := by omega
  -- there is fuel for every byte that is left
  have hfuel : cut - 12 <
      (header ++ (framed payloads ++ (Bytes.word 4 0 ++ rest)).take (cut - 12)).length + 1 := by
    simp only [List.length_append, List.length_take, Bytes.length_word]
    omega
  rw [body, List.append_assoc, take_append_of_le hheader, decode_header]
  exact bind_eq_of_error (readFrames_cut h hfuel hroom 0 12 rest behind)

/-- A checkpoint that ends within its trailer, behind the end marker, fails at the count or at the
    digest. -/
theorem decode_cut_trailer (h : Fills .empty payloads rs) {cut : Nat}
    (hmarker : (body payloads).length + 4 ≤ cut) (hcut : cut < (body payloads).length + 44)
    {count digest : Bytes} (hcount : count.length = 8) (hdigest : digest.length = 32) :
    decode ((body payloads ++ (Bytes.word 4 0 ++ (count ++ digest))).take cut)
      = .error (.truncated ((body payloads).length + 4 +
          firstUnfit (cut - ((body payloads).length + 4)) [count, digest])) := by
  have hbody : (body payloads).length ≤ cut := by omega
  have hword : (Bytes.word 4 0).length ≤ cut - (body payloads).length := by
    rw [Bytes.length_word]
    omega
  have hroom : cut - ((body payloads).length + 4) < 40 := by omega
  rw [take_append_of_le hbody, take_append_of_le hword, decode_body h, Bytes.length_word, Nat.sub_sub]
  exact conclude_cut hroom _ _ _ _ _ hcount hdigest

/-- **Cut checkpoints.** A checkpoint that ends too early fails at the first field that is not
    there in full. -/
theorem decode_cut (h : Fills .empty payloads rs) {cut : Nat} (hcut : cut < (sealed payloads).length) :
    decode ((sealed payloads).take cut) = .error (.truncated (firstUnfit cut (fields payloads))) := by
  rw [length_sealed] at hcut
  rw [sealed_eq]
  by_cases hheader : cut < 12
  · rw [body, List.append_assoc]
    exact decode_cut_header hheader _ _
  have hheader : 12 ≤ cut := Nat.not_lt.mp hheader
  by_cases hmarker : cut < (body payloads).length + 4
  · rw [decode_cut_frames h hheader hmarker _
      [Bytes.word 8 payloads.length, Sha256.digest (body payloads)], fields,
      @firstUnfit_append [magic, Bytes.word 4 version] cut hheader]
    rfl
  · have hmarker : (body payloads).length + 4 ≤ cut := Nat.not_lt.mp hmarker
    have hfields : fields payloads = ([magic, Bytes.word 4 version] ++ (frameFields payloads ++
        [Bytes.word 4 0])) ++ [Bytes.word 8 payloads.length, Sha256.digest (body payloads)] := by
      simp only [fields, List.append_assoc, List.cons_append, List.nil_append]
    have hbefore : ([magic, Bytes.word 4 version] ++ (frameFields payloads ++
        [Bytes.word 4 0])).flatten.length = (body payloads).length + 4 := by
      rw [List.flatten_append, List.flatten_append, flatten_frameFields, length_body,
        List.length_append, List.length_append, Nat.add_assoc]
      rfl
    rw [decode_cut_trailer h hmarker hcut (Bytes.length_word 8 _) (Sha256.length_digest _), hfields,
      firstUnfit_append (Nat.le_trans (Nat.le_of_eq hbefore) hmarker), hbefore]

-- ── Trailers ────────────────────────────────────────────────────────────────

/-- What is before the end marker of a checkpoint. -/
def unsealed (bytes : Bytes) : Bytes := bytes.take (bytes.length - 44)

/-- The eight bytes of the count. -/
def countField (bytes : Bytes) : Bytes := (bytes.drop (bytes.length - 40)).take 8

/-- The last 32 bytes, which are the digest. -/
def digestField (bytes : Bytes) : Bytes := bytes.drop (bytes.length - 32)

theorem LaidOut.unsealed {bytes : Bytes} (h : LaidOut bytes payloads rs) :
    unsealed bytes = body payloads := by
  rw [Checkpoint.unsealed, h.bytes_eq, length_sealed, Nat.add_sub_cancel, sealed_eq, List.take_left]

theorem LaidOut.countField {bytes : Bytes} (h : LaidOut bytes payloads rs) :
    countField bytes = Bytes.word 8 payloads.length := by
  have hbytes : bytes = (body payloads ++ Bytes.word 4 0) ++
      (Bytes.word 8 payloads.length ++ Sha256.digest (body payloads)) := by
    rw [h.bytes_eq, sealed_eq, List.append_assoc]
  have hbefore : (body payloads ++ Bytes.word 4 0).length = bytes.length - 40 := by
    rw [h.bytes_eq, length_sealed, List.length_append, Bytes.length_word]
    omega
  rw [Checkpoint.countField, ← hbefore, hbytes, List.drop_left]
  exact List.take_left' (Bytes.length_word 8 _)

theorem LaidOut.digestField {bytes : Bytes} (h : LaidOut bytes payloads rs) :
    digestField bytes = Sha256.digest (body payloads) := by
  have hbytes : bytes = (body payloads ++ Bytes.word 4 0 ++ Bytes.word 8 payloads.length) ++
      Sha256.digest (body payloads) := by
    rw [h.bytes_eq, sealed_eq, List.append_assoc, List.append_assoc]
  have hbefore : (body payloads ++ Bytes.word 4 0 ++ Bytes.word 8 payloads.length).length
      = bytes.length - 32 := by
    rw [h.bytes_eq, length_sealed, List.length_append, List.length_append, Bytes.length_word,
      Bytes.length_word]
    omega
  rw [Checkpoint.digestField, ← hbefore, hbytes, List.drop_left]

/-- Bytes behind a checkpoint are not passed over. -/
theorem decode_append_of_laidOut {bytes more : Bytes} (h : LaidOut bytes payloads rs) (hmore : more ≠ []) :
    decode (bytes ++ more) = .error (.corrupt bytes.length .trailing) := by
  have hlength : bytes.length = (body payloads).length + 44 := by
    rw [h.bytes_eq, length_sealed]
  rw [hlength, h.bytes_eq, sealed_eq]
  simp only [List.append_assoc]
  rw [decode_fields h.fills (Bytes.length_word 8 _) (Sha256.length_digest _),
    if_neg (fun hne => hne rfl), if_neg (fun hne => hne (ofWord_count payloads)), if_pos hmore]

/-- A count that is not the number of the records is noticed, if the digest is right. -/
theorem decode_of_other_count (h : Fills .empty payloads rs) {count : Bytes} (hcount : count.length = 8)
    (hother : count ≠ Bytes.word 8 payloads.length) :
    decode (body payloads ++ (Bytes.word 4 0 ++ (count ++ Sha256.digest (body payloads))))
      = .error (.countMismatch (Bytes.ofWord count) (payloads.length % UInt64.size)) := by
  have hnumber : Bytes.ofWord count ≠ payloads.length % UInt64.size := by
    intro heq
    have hword := Bytes.word_ofWord count
    rw [hcount, heq] at hword
    exact hother (hword.symm.trans (Bytes.word_mod 8 payloads.length))
  have hread := decode_fields h hcount (Sha256.length_digest (body payloads)) []
  rw [List.append_nil, if_neg (fun hne => hne rfl), if_pos hnumber] at hread
  exact hread

/-- A digest that is not the digest of header and frames is noticed, whatever the count. -/
theorem decode_of_other_digest (h : Fills .empty payloads rs) {count digest : Bytes}
    (hcount : count.length = 8) (hdigest : digest.length = 32)
    (hother : digest ≠ Sha256.digest (body payloads)) :
    decode (body payloads ++ (Bytes.word 4 0 ++ (count ++ digest))) = .error .checksumMismatch := by
  have hread := decode_fields h hcount hdigest []
  rw [List.append_nil, if_pos (Ne.symm hother)] at hread
  exact hread

/-- Header and frames fix a checkpoint: marker and digest follow, and the count does too. -/
theorem eq_of_body_eq {bytes other : Bytes} {payloads' : List Bytes} {rs' : List Record}
    (h : LaidOut bytes payloads rs) (h' : LaidOut other payloads' rs')
    (hbody : body payloads' = body payloads) : other = bytes := by
  have hother := h'.bytes_eq
  rw [sealed_eq, hbody] at hother
  have hcount : Bytes.word 8 payloads'.length = Bytes.word 8 payloads.length := by
    by_contra hne
    -- the same frames with another count would not have been read
    have hread := decode_of_laidOut h'
    rw [hother, decode_of_other_count h.fills (Bytes.length_word 8 _) hne] at hread
    cases hread
  rw [hother, hcount, h.bytes_eq, sealed_eq]

-- ── What is noticed ─────────────────────────────────────────────────────────

/-- **Cut or extended checkpoints are not read.** Bytes that can be read are the fields of a
    checkpoint, one behind the other.  The first of them alone, however many, fail at the place
    where the first field begins that is not there in full; with more bytes behind them, they
    fail at the end of the digest. -/
theorem decode_cut_or_extended {bytes : Bytes} {c : Catalog} (h : decode bytes = .ok c) :
    ∃ payloads rs, LaidOut bytes payloads rs ∧ (fields payloads).flatten = bytes ∧
      (∀ cut < bytes.length,
        decode (bytes.take cut) = .error (.truncated (firstUnfit cut (fields payloads)))) ∧
      (∀ more, more ≠ [] → decode (bytes ++ more) = .error (.corrupt bytes.length .trailing)) ∧
      Damage.trailing.message = "trailing bytes after end marker" := by
  obtain ⟨payloads, rs, hlaid, -⟩ := laidOut_of_decode h
  have hbytes : bytes = sealed payloads := hlaid.bytes_eq
  refine ⟨payloads, rs, hlaid, ?_, ?_, fun more hmore => decode_append_of_laidOut hlaid hmore, rfl⟩
  · rw [flatten_fields, hbytes]
  · intro cut hcut
    rw [hbytes] at hcut ⊢
    exact decode_cut hlaid.fills hcut

/-- A record of one gauge. -/
def upRecord : Record :=
  ⟨⟨⟨"job", ""⟩, "up"⟩, ⟨.epoch, ⟨"up", "", .gauge,
    [⟨SortedMap.ofList [("job", "job")], .gauge ⟨0x3FF0000000000000⟩, none⟩]⟩⟩⟩

/-- The checkpoint of one gauge. -/
def upCheckpoint : Bytes := sealed [upRecord.json]

theorem decode_upCheckpoint : decode upCheckpoint = .ok (catalogOf [upRecord]) := by
  decide +kernel

theorem decode_cut_or_extended_upCheckpoint :
    ∃ payloads rs, LaidOut upCheckpoint payloads rs ∧ (fields payloads).flatten = upCheckpoint ∧
      (∀ cut < upCheckpoint.length,
        decode (upCheckpoint.take cut) = .error (.truncated (firstUnfit cut (fields payloads)))) ∧
      (∀ more, more ≠ [] →
        decode (upCheckpoint ++ more) = .error (.corrupt upCheckpoint.length .trailing)) ∧
      Damage.trailing.message = "trailing bytes after end marker" :=
  decode_cut_or_extended decode_upCheckpoint

/-- **Changed checkpoints are noticed.** Bytes that can be read end with the end marker, a count
    of eight bytes and a digest of 32.  Other bytes with the same digest that can be read are the
    same, or what is before their end marker is different and has the same SHA-256 digest.  With
    another count in the place of theirs the bytes fail with that and the number of the records,
    and with another digest, because of the digest. -/
theorem decode_changed {bytes : Bytes} {c : Catalog} (h : decode bytes = .ok c) :
    (bytes = unsealed bytes ++ (Bytes.word 4 0 ++ (countField bytes ++ digestField bytes)) ∧
        (countField bytes).length = 8 ∧ (digestField bytes).length = 32) ∧
      (∀ other d, decode other = .ok d → digestField other = digestField bytes →
        other = bytes ∨ unsealed other ≠ unsealed bytes ∧
          Sha256.digest (unsealed other) = Sha256.digest (unsealed bytes)) ∧
      (∀ count, count.length = 8 → count ≠ countField bytes →
        decode (unsealed bytes ++ (Bytes.word 4 0 ++ (count ++ digestField bytes)))
          = .error (.countMismatch (Bytes.ofWord count) ((records c).length % UInt64.size))) ∧
      (∀ digest, digest.length = 32 → digest ≠ digestField bytes →
        decode (unsealed bytes ++ (Bytes.word 4 0 ++ (countField bytes ++ digest)))
          = .error .checksumMismatch) := by
  obtain ⟨payloads, rs, hlaid, rfl⟩ := laidOut_of_decode h
  have hnumber : (records (catalogOf rs)).length = payloads.length :=
    (records_catalogOf hlaid.distinct).length_eq.trans hlaid.holds.length_eq.symm
  rw [hlaid.unsealed, hlaid.countField, hlaid.digestField, hnumber]
  refine ⟨⟨?_, Bytes.length_word 8 _, Sha256.length_digest _⟩, ?_, ?_, ?_⟩
  · rw [hlaid.bytes_eq, sealed_eq]
  · intro other d hread hdigest
    obtain ⟨payloads', rs', hother, -⟩ := laidOut_of_decode hread
    rw [hother.digestField] at hdigest
    rw [hother.unsealed]
    by_cases hbody : body payloads' = body payloads
    · exact Or.inl (eq_of_body_eq hlaid hother hbody)
    · exact Or.inr ⟨hbody, hdigest⟩
  · intro count hcount hother
    exact decode_of_other_count hlaid.fills hcount hother
  · intro digest hdigest hother
    exact decode_of_other_digest hlaid.fills (Bytes.length_word 8 _) hdigest hother

theorem decode_changed_upCheckpoint :
    (∀ other d, decode other = .ok d → digestField other = digestField upCheckpoint →
        other = upCheckpoint ∨ unsealed other ≠ unsealed upCheckpoint ∧
          Sha256.digest (unsealed other) = Sha256.digest (unsealed upCheckpoint)) ∧
      decode (unsealed upCheckpoint ++
          (Bytes.word 4 0 ++ (Bytes.word 8 2 ++ digestField upCheckpoint)))
        = .error (.countMismatch 2 1) ∧
      decode (unsealed upCheckpoint ++
          (Bytes.word 4 0 ++ (countField upCheckpoint ++ List.replicate 32 0)))
        = .error .checksumMismatch := by
  obtain ⟨-, hsame, hcount, hdigest⟩ := decode_changed decode_upCheckpoint
  refine ⟨hsame, ?_, ?_⟩
  · exact hcount (Bytes.word 8 2) (by decide) (by decide +kernel)
  · exact hdigest (List.replicate 32 0) (by decide) (by decide +kernel)

end MetricDepot.Checkpoint
