import MetricDepot.Checkpoint.Format
import MetricDepot.FileSystem.Disk
/-!
# Checkpoint file — replacing and restoring

A checkpoint replaces the one before it in a single move: its bytes are first put into a
staging file beside the target, whose name is the target's with an ending of its own, and
brought to the disk; then the staging file takes the target's place. A failure before the
move leaves the target as it was.

A file that is missing or empty restores to the empty catalog.
-/

namespace MetricDepot.Checkpoint

/-- The ending of the staging file. -/
def stagingEnding : String := ".in_progress"

/-- The file in which the checkpoint for a file is staged. -/
def stagingOf (file : String) : String := file ++ stagingEnding

/-- The effects that replace the bytes of a file. -/
def replacement (file : String) (bytes : Bytes) : List Effect :=
  let staging := stagingOf file
  let parent := Route.parentOf file
  (if parent = "" then [] else [.makeDirectories parent]) ++
    [.create staging, .append staging bytes, .sync staging, .rename staging file]

variable {σ : Type} [Files σ]

/-- Replaces the bytes of a file. -/
def replace (file : String) (bytes : Bytes) (d : Device σ) : Device σ × Except Fault Unit :=
  let (d, done) := d.performAll (replacement file bytes)
  (d, done.mapError .io)

/-- What was written: the number of families and of bytes. -/
structure Summary where
  families : Nat
  bytes : Nat
deriving DecidableEq, Repr

/-- Writes a catalog to a file. -/
def save (file : String) (c : Catalog) (d : Device σ) : Device σ × Except Fault Summary :=
  match encode c with
  | .error fault => (d, .error fault)
  | .ok bytes =>
      let (d, done) := replace file bytes d
      (d, done.map fun _ => ⟨c.size, bytes.length⟩)

/-- The catalog that a file holds. -/
def restore (file : String) (files : σ) : Except Fault Catalog :=
  match Files.read files file with
  | .error .notFound => .ok .empty
  | .error e => .error (.io e)
  | .ok [] => .ok .empty
  | .ok bytes => decode bytes

end MetricDepot.Checkpoint
