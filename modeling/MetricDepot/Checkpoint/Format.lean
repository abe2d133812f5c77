import MetricDepot.Catalog.View
import MetricDepot.Checkpoint.Fault
import MetricDepot.Sha256
/-!
# Format — a catalog as one self-checking byte string

A checkpoint is a header, one frame for each slot in the order of job, instance and name,
and a trailer. The header names the format and its version. A frame is the length of a
record and the record as JSON. The trailer is the length zero, which no record has, the
number of records, and the digest of header and frames. Numbers are little-endian words.

Reading takes one field after another and fails at the first that does not fit into what
is left, at the byte where that field begins. A record is judged as soon as it is read.
Digest, count and end of file are judged in this order when all fields are there.
-/

namespace MetricDepot.Checkpoint

-- ── Parts of the format ─────────────────────────────────────────────────────

/-- The bytes that tell a checkpoint from other files. -/
def magic : Bytes := [0x50, 0x47, 0x43, 0x4B, 0x50, 0x54, 0x00, 0x00]

/-- The version of the format. -/
def version : Nat := 1

/-- The first bytes of a checkpoint. -/
def header : Bytes := magic ++ Bytes.word 4 version

/-- A payload behind its length. -/
def frame (payload : Bytes) : Bytes := Bytes.word 4 payload.length ++ payload

/-- The last bytes of a checkpoint whose other bytes are `body`. -/
def trailer (count : Nat) (body : Bytes) : Bytes :=
  Bytes.word 4 0 ++ Bytes.word 8 count ++ Sha256.digest body

-- ── Writing ─────────────────────────────────────────────────────────────────

/-- The frame of a record. The format has no times before the epoch, and lengths of 32 bits. -/
def frameOf (r : Record) : Except Fault Bytes :=
  if r.stored.received.nanos < 0 then .error (.beforeEpoch r.slot)
  else
    let payload := r.json
    if payload.length < UInt32.size then .ok (frame payload) else .error (.tooLong r.slot)

/-- The records of a catalog, in the order of their slots. -/
def records (c : Catalog) : List Record := c.slots.map fun (slot, stored) => ⟨slot, stored⟩

/-- Records as a checkpoint. -/
def encodeRecords (rs : List Record) : Except Fault Bytes := do
  let frames ← rs.mapM frameOf
  let body := header ++ frames.flatten
  return body ++ trailer frames.length body

/-- A catalog as a checkpoint. -/
def encode (c : Catalog) : Except Fault Bytes := encodeRecords (records c)

-- ── Reading ─────────────────────────────────────────────────────────────────

/-- A place in a byte string, with the bytes from there on. -/
structure Cursor where
  offset : Nat
  rest : Bytes

namespace Cursor

/-- Takes some bytes, if there are as many. -/
def take (cur : Cursor) (n : Nat) : Except Fault (Bytes × Cursor) :=
  let field := cur.rest.take n
  if field.length = n then .ok (field, ⟨cur.offset + n, cur.rest.drop n⟩)
  else .error (.truncated cur.offset)

/-- Takes a word of some bytes. -/
def takeWord (cur : Cursor) (width : Nat) : Except Fault (Nat × Cursor) := do
  let (field, cur) ← cur.take width
  return (Bytes.ofWord field, cur)

end Cursor

/-- The record that a payload holds, if it can be read and is not damaged. -/
def recordOf (payload : Bytes) : Except Damage Record :=
  match Json.document Record.read payload with
  | .error fault => .error (.text fault)
  | .ok r =>
      match r.damage? with
      | some damage => .error damage
      | none => .ok r

/-- The catalog with one more record, whose slot must be free. -/
def insertRecord (c : Catalog) (payload : Bytes) : Except Damage Catalog := do
  let r ← recordOf payload
  if (c.get? r.slot).isSome then throw (.duplicate r.slot)
  return c.insert r.slot r.stored

/-- What has been read when the end marker comes: the catalog, the number of its records,
    the place of the marker, and the place behind it. -/
structure Frames where
  catalog : Catalog
  count : Nat
  marker : Nat
  behind : Cursor

/-- Reads frames up to the end marker. The fuel bounds their number. -/
def readFrames : (fuel : Nat) → Catalog → (count : Nat) → Cursor → Except Fault Frames
  | 0, _, _, cur => .error (.truncated cur.offset)
  | fuel + 1, c, count, cur => do
      let (length, afterLength) ← cur.takeWord 4
      if length = 0 then return ⟨c, count, cur.offset, afterLength⟩
      let (payload, next) ← afterLength.take length
      match insertRecord c payload with
      | .error damage => throw (.corrupt cur.offset damage)
      | .ok c => readFrames fuel c (count + 1) next

/-- The catalog that a checkpoint holds. -/
def decode (bytes : Bytes) : Except Fault Catalog := do
  let (name, cur) ← Cursor.take ⟨0, bytes⟩ 8
  if name ≠ magic then throw .badMagic
  let (number, cur) ← cur.takeWord 4
  if number ≠ version then throw (.unsupportedVersion number)
  let frames ← readFrames (bytes.length + 1) .empty 0 cur
  let (count, cur) ← frames.behind.takeWord 8
  let (digest, cur) ← cur.take 32
  if Sha256.digest (bytes.take frames.marker) ≠ digest then throw .checksumMismatch
  -- records are counted in 64 bits, here as in the trailer
  let found := frames.count % UInt64.size
  if count ≠ found then throw (.countMismatch count found)
  if cur.rest ≠ [] then throw (.corrupt cur.offset .trailing)
  return frames.catalog

end MetricDepot.Checkpoint
