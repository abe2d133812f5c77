import MetricDepot.Checkpoint.Record
import MetricDepot.FileSystem.IoError
/-!
# Faults — why a checkpoint could not be written or read

Writing fails when a record cannot be put into the format or the disk refuses. Reading
tells apart by cause and place: not a checkpoint at all, a version that is not known, a
file that ends too early, damage at some byte, a digest or a count that does not fit.
-/

namespace MetricDepot.Checkpoint

/-- Why a checkpoint could not be written or read. -/
inductive Fault where
  | io (error : IoError)
  | beforeEpoch (slot : Slot)
  | tooLong (slot : Slot)
  | badMagic
  | unsupportedVersion (version : Nat)
  | truncated (offset : Nat)
  | corrupt (offset : Nat) (damage : Damage)
  | checksumMismatch
  | countMismatch (expected found : Nat)
deriving DecidableEq, Repr

/-- The wording of a fault. -/
def Fault.message : Fault → String
  | io error => "checkpoint I/O error: " ++ error.message
  | beforeEpoch slot => "encode error: record " ++ slot.text ++ " was received before the epoch"
  | tooLong slot => "encode error: record " ++ slot.text ++ " exceeds 4 GiB"
  | badMagic => "not a checkpoint file (bad magic)"
  | unsupportedVersion version => "unsupported checkpoint format version " ++ toString version
  | truncated offset => "checkpoint truncated at byte " ++ toString offset
  | corrupt offset damage =>
      "corrupt checkpoint at byte " ++ toString offset ++ ": " ++ damage.message
  | checksumMismatch => "checkpoint checksum mismatch"
  | countMismatch expected found =>
      "checkpoint claims " ++ toString expected ++ " records but holds " ++ toString found

end MetricDepot.Checkpoint
