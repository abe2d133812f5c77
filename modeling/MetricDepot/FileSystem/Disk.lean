import MetricDepot.FileSystem.Basic
/-!
# Disk — a file system that may fail

What a program does to a file system is a sequence of effects. What an effect does is the
same for every kind of file system, by what can be done to one. Making several directories
takes several steps: where one fails, what was done before stays done.

Besides the failures that the file system itself explains, any effect may fail for no reason
that can be seen; the device decides in advance which ones do. An effect that fails so may
have been done in part: a write may have put down some of its bytes, and of several
directories some may have been made. Moving a file is done whole or not at all.
-/

namespace MetricDepot

/-- One thing done to a file system. -/
inductive Effect where
  | makeDirectories (route : String)
  | create (route : String)
  | append (route : String) (bytes : Bytes)
  | sync (route : String)
  | rename (source target : String)
deriving DecidableEq

/-- A kind of file system: what can be read from one, and what can be done to one, wholly or not
    at all. -/
class Files (σ : Type) where
  read : σ → String → Except IoError Bytes
  makeDirectory : σ → Route → Except IoError σ
  create : σ → String → Except IoError σ
  append : σ → String → Bytes → Except IoError σ
  rename : (files : σ) → (source target : String) → Except IoError σ

namespace Files

variable {σ : Type}

/-- What is left after something that is done wholly or not at all. -/
def outcome (files : σ) : Except IoError σ → σ × Except IoError Unit
  | .ok changed => (changed, .ok ())
  | .error e => (files, .error e)

variable [Files σ]

/-- Makes directories one after another, up to the first that cannot be made. -/
def makeEach : σ → List Route → σ × Except IoError Unit
  | files, [] => (files, .ok ())
  | files, r :: rest =>
      match makeDirectory files r with
      | .ok made => makeEach made rest
      | .error e => (files, .error e)

/-- Makes a directory and those on the way to it, the outermost first. -/
def makeDirectories (files : σ) (text : String) : σ × Except IoError Unit :=
  match Route.ofText text with
  | .ok r => makeEach files (r.ancestors ++ [r])
  | .error e => (files, .error e)

/-- Does an effect. -/
def perform (files : σ) : Effect → σ × Except IoError Unit
  | .makeDirectories route => makeDirectories files route
  | .create route => outcome files (create files route)
  | .append route bytes => outcome files (append files route bytes)
  | .sync _ => (files, .ok ())
  | .rename source target => outcome files (rename files source target)

/-- What is left of an effect that fails after `done` of its parts. -/
def interrupted (files : σ) (done : Nat) : Effect → σ
  | .makeDirectories route =>
      match Route.ofText route with
      | .ok r => (makeEach files (r.ancestors.take done)).1
      | .error _ => files
  | .append route bytes => (outcome files (append files route (bytes.take done))).1
  | _ => files

end Files

-- ── Devices ─────────────────────────────────────────────────────────────────

/-- A file system, and for the effects to come whether each fails, and after how many of
    its parts. Beyond the end of the list nothing fails. -/
structure Device (σ : Type) where
  files : σ
  faults : List (Option Nat)

namespace Device

variable {σ : Type}

/-- The device on which nothing fails without a reason. -/
def sound (files : σ) : Device σ := ⟨files, []⟩

variable [Files σ]

/-- Does an effect, or fails. -/
def perform (d : Device σ) (e : Effect) : Device σ × Except IoError Unit :=
  match d.faults with
  | some done :: later => (⟨Files.interrupted d.files done e, later⟩, .error .interrupted)
  | faults =>
      let (files, done) := Files.perform d.files e
      (⟨files, faults.tail⟩, done)

/-- Does effects in order, up to the first that fails. -/
def performAll (d : Device σ) : List Effect → Device σ × Except IoError Unit
  | [] => (d, .ok ())
  | e :: rest =>
      match d.perform e with
      | (d, .ok ()) => d.performAll rest
      | (d, .error reason) => (d, .error reason)

end Device

-- ── File systems without links ──────────────────────────────────────────────

namespace FileSystem

instance : Files FileSystem := ⟨read, makeDirectory, create, append, rename⟩

/-- What is left after something that is done wholly or not at all. -/
def outcome (fs : FileSystem) (result : Except IoError FileSystem) : FileSystem × Except IoError Unit :=
  Files.outcome fs result

/-- Makes a directory and those on the way to it. -/
def makeDirectories (fs : FileSystem) (text : String) : FileSystem × Except IoError Unit :=
  Files.makeDirectories fs text

end FileSystem

/-- A device with a file system without links. -/
abbrev Disk := Device FileSystem

instance : Inhabited Disk := ⟨.sound .empty⟩

end MetricDepot
