import MetricDepot.Bytes
/-!
# SHA-256 — the digest of a byte string

The message is padded to whole blocks of sixteen 32-bit words, most significant byte
first: a one bit, zeros, and the length in bits. Each block is expanded to a schedule of
sixty-four words, which drive sixty-four rounds on eight state words; the result is added
to the state. The digest is the last state, thirty-two bytes.
-/

namespace MetricDepot.Sha256

-- ── Words ───────────────────────────────────────────────────────────────────

/-- The word turned right by fewer than 32 places. -/
def turn (x : UInt32) (places : UInt32) : UInt32 := (x >>> places) ||| (x <<< (32 - places))

/-- The word of four bytes, most significant first. -/
def wordOf (a b c d : UInt8) : UInt32 :=
  (a.toUInt32 <<< 24) ||| (b.toUInt32 <<< 16) ||| (c.toUInt32 <<< 8) ||| d.toUInt32

/-- The words of a byte string whose length is a multiple of four. -/
def words : Bytes → List UInt32
  | a :: b :: c :: d :: rest => wordOf a b c d :: words rest
  | _ => []

/-- The four bytes of a word, most significant first. -/
def bytesOf (x : UInt32) : Bytes :=
  [(x >>> 24).toUInt8, (x >>> 16).toUInt8, (x >>> 8).toUInt8, x.toUInt8]

-- ── Padding ─────────────────────────────────────────────────────────────────

/-- The number of zero bytes behind the one bit of a message of the given length. -/
def zeroCount (length : Nat) : Nat := (119 - length % 64) % 64

/-- The message with its padding. -/
def padded (message : Bytes) : Bytes :=
  message ++ 0x80 :: (List.replicate (zeroCount message.length) 0 ++
    (Bytes.word 8 (8 * message.length)).reverse)

-- ── Rounds ──────────────────────────────────────────────────────────────────

/-- The state between rounds. -/
structure State where
  a : UInt32
  b : UInt32
  c : UInt32
  d : UInt32
  e : UInt32
  f : UInt32
  g : UInt32
  h : UInt32

/-- The state before the first block. -/
def start : State :=
  ⟨0x6A09E667, 0xBB67AE85, 0x3C6EF372, 0xA54FF53A, 0x510E527F, 0x9B05688C, 0x1F83D9AB, 0x5BE0CD19⟩

/-- The constant of each round. -/
def constants : List UInt32 :=
  [0x428A2F98, 0x71374491, 0xB5C0FBCF, 0xE9B5DBA5, 0x3956C25B, 0x59F111F1, 0x923F82A4, 0xAB1C5ED5,
    0xD807AA98, 0x12835B01, 0x243185BE, 0x550C7DC3, 0x72BE5D74, 0x80DEB1FE, 0x9BDC06A7, 0xC19BF174,
    0xE49B69C1, 0xEFBE4786, 0x0FC19DC6, 0x240CA1CC, 0x2DE92C6F, 0x4A7484AA, 0x5CB0A9DC, 0x76F988DA,
    0x983E5152, 0xA831C66D, 0xB00327C8, 0xBF597FC7, 0xC6E00BF3, 0xD5A79147, 0x06CA6351, 0x14292967,
    0x27B70A85, 0x2E1B2138, 0x4D2C6DFC, 0x53380D13, 0x650A7354, 0x766A0ABB, 0x81C2C92E, 0x92722C85,
    0xA2BFE8A1, 0xA81A664B, 0xC24B8B70, 0xC76C51A3, 0xD192E819, 0xD6990624, 0xF40E3585, 0x106AA070,
    0x19A4C116, 0x1E376C08, 0x2748774C, 0x34B0BCB5, 0x391C0CB3, 0x4ED8AA4A, 0x5B9CCA4F, 0x682E6FF3,
    0x748F82EE, 0x78A5636F, 0x84C87814, 0x8CC70208, 0x90BEFFFA, 0xA4506CEB, 0xBEF9A3F7, 0xC67178F2]

/-- The next word of a schedule whose words are listed from the latest to the first. -/
def nextWord (latest : List UInt32) : UInt32 :=
  let early := latest.getD 14 0
  let late := latest.getD 1 0
  (turn late 17 ^^^ turn late 19 ^^^ (late >>> 10)) + latest.getD 6 0 +
    (turn early 7 ^^^ turn early 18 ^^^ (early >>> 3)) + latest.getD 15 0

/-- A schedule, latest word first, with some more words. -/
def extend : Nat → List UInt32 → List UInt32
  | 0, latest => latest
  | more + 1, latest => extend more (nextWord latest :: latest)

/-- The sixty-four words of a block of sixteen. -/
def schedule (block : List UInt32) : List UInt32 := (extend 48 block.reverse).reverse

/-- One round, with the constant and the word that belong to it. -/
def round (s : State) (input : UInt32 × UInt32) : State :=
  let choice := (s.e &&& s.f) ^^^ ((~~~ s.e) &&& s.g)
  let majority := (s.a &&& s.b) ^^^ (s.a &&& s.c) ^^^ (s.b &&& s.c)
  let t := s.h + (turn s.e 6 ^^^ turn s.e 11 ^^^ turn s.e 25) + choice + input.1 + input.2
  let u := (turn s.a 2 ^^^ turn s.a 13 ^^^ turn s.a 22) + majority
  ⟨t + u, s.a, s.b, s.c, s.d + t, s.e, s.f, s.g⟩

/-- The state after one more block. -/
def compress (s : State) (block : List UInt32) : State :=
  let r := (constants.zip (schedule block)).foldl round s
  ⟨s.a + r.a, s.b + r.b, s.c + r.c, s.d + r.d, s.e + r.e, s.f + r.f, s.g + r.g, s.h + r.h⟩

-- ── Digest ──────────────────────────────────────────────────────────────────

/-- The state after the given number of blocks, each sixteen words off the front. -/
def absorb : (blocks : Nat) → State → List UInt32 → State
  | 0, s, _ => s
  | blocks + 1, s, message => absorb blocks (compress s (message.take 16)) (message.drop 16)

/-- The bytes of a state. -/
def State.bytes (s : State) : Bytes :=
  [s.a, s.b, s.c, s.d, s.e, s.f, s.g, s.h].flatMap bytesOf

/-- The digest of a message. -/
def digest (message : Bytes) : Bytes :=
  let blocks := words (padded message)
  (absorb (blocks.length / 16) start blocks).bytes

@[simp] theorem length_digest (message : Bytes) : (digest message).length = 32 := rfl

end MetricDepot.Sha256
