/-!
# Receive times — when a push arrived

A receive time is a whole number of nanoseconds from the epoch, before or after it, whose
whole seconds fit a signed 64-bit word. Times compare as the numbers they are.
-/

namespace MetricDepot

/-- The number of nanoseconds in a second. -/
def nanosPerSecond : Nat := 1000000000

/-- The number of seconds before the epoch at which receive times begin, and after it at
    which they end. -/
def receiveSpan : Nat := 0x8000000000000000

/-- A time, in nanoseconds from the epoch. -/
structure ReceiveTime where
  nanos : Int
  from_start : -(receiveSpan * nanosPerSecond : Nat) ≤ nanos
  before_end : nanos < (receiveSpan * nanosPerSecond : Nat)
deriving DecidableEq

namespace ReceiveTime

/-- The epoch. -/
def epoch : ReceiveTime := ⟨0, by decide, by decide⟩

instance : Inhabited ReceiveTime := ⟨epoch⟩

instance : LE ReceiveTime := ⟨fun a b => a.nanos ≤ b.nanos⟩

instance (a b : ReceiveTime) : Decidable (a ≤ b) := inferInstanceAs (Decidable (a.nanos ≤ b.nanos))

instance : Max ReceiveTime := ⟨fun a b => if a ≤ b then b else a⟩

/-- The time a number of nanoseconds from the epoch, if that is in range. -/
def ofNanos? (nanos : Int) : Option ReceiveTime :=
  if h : -(receiveSpan * nanosPerSecond : Nat) ≤ nanos ∧ nanos < (receiveSpan * nanosPerSecond : Nat)
  then some ⟨nanos, h.1, h.2⟩
  else none

/-- The time some seconds and nanoseconds from the epoch. There may be more nanoseconds than
    make a second. -/
def ofParts? (seconds : Int) (nanos : Nat) : Option ReceiveTime :=
  ofNanos? (seconds * nanosPerSecond + nanos)

/-- The whole seconds from the epoch, of a time that is not before it. -/
def seconds (t : ReceiveTime) : Nat := t.nanos.toNat / nanosPerSecond

/-- The nanoseconds beyond the whole seconds, of a time that is not before the epoch. -/
def subsecond (t : ReceiveTime) : Nat := t.nanos.toNat % nanosPerSecond

theorem eq_of_nanos {a b : ReceiveTime} (h : a.nanos = b.nanos) : a = b := by
  obtain ⟨n, _, _⟩ := a
  obtain ⟨m, _, _⟩ := b
  cases h
  rfl

/-- A time that is not before the epoch is its seconds and the nanoseconds beyond them. -/
theorem ofParts?_parts {t : ReceiveTime} (h : epoch ≤ t) :
    ofParts? t.seconds t.subsecond = some t := by
  have hnonneg : (0 : Int) ≤ t.nanos := h
  have hsum : ((t.seconds : Nat) : Int) * (nanosPerSecond : Nat) + (t.subsecond : Nat) = t.nanos := by
    have := Nat.div_add_mod t.nanos.toNat nanosPerSecond
    simp only [seconds, subsecond]
    rw [← Int.natCast_mul, ← Int.natCast_add, Nat.mul_comm, this]
    omega
  simp only [ofParts?, ofNanos?, hsum]
  rw [dif_pos ⟨t.from_start, t.before_end⟩]

end ReceiveTime

end MetricDepot
