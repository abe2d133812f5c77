import MetricDepot.Bytes
import MetricDepot.Settings.Duration
import MetricDepot.Text.Quoted
import MetricDepot.Toml.Document
import MetricDepot.Toml.Writer
/-!
# Settings — how a depot keeps its catalog

Settings say whether a depot has a checkpoint file, and how long after a change the file
is to be written. They are read from the table `persistence` of a TOML document, whose
other contents are passed over: `file` must be there, `interval` may be missing. Without
that table a depot keeps everything in memory.

The interval is kept as its text. A document whose interval is no duration is refused, but
settings that were made in the program are judged only when the interval is asked for.
-/

namespace MetricDepot

/-- Where checkpoints go, and the text of the time from a change to its checkpoint. -/
structure Persistence where
  file : String
  interval : String
deriving DecidableEq, Repr

/-- How a depot keeps its catalog: in a file, or in memory alone. -/
structure Settings where
  persistence : Option Persistence
deriving DecidableEq, Repr

namespace Settings

/-- Why a text gives no settings. -/
inductive Fault where
  | unreadable
  | document
  | interval (text : String)
deriving DecidableEq, Repr

/-- The wording of a fault. -/
def Fault.message : Fault → String
  | unreadable => "settings cannot be read"
  | document => "malformed settings"
  | interval text => "invalid persistence interval " ++ Text.quoted text

/-- The settings of a depot in memory. -/
def inMemory : Settings := ⟨none⟩

/-- The settings of a depot with a file. -/
def withFile (file interval : String) : Settings := ⟨some ⟨file, interval⟩⟩

/-- The text of the interval that counts where none is given. -/
def defaultInterval : String := "5m"

end Settings

/-- The interval as a duration. -/
def Persistence.duration (p : Persistence) : Except Settings.Fault Duration :=
  match Duration.parse? p.interval with
  | some d => .ok d
  | none => .error (.interval p.interval)

namespace Settings

open Toml

-- ── Reading ─────────────────────────────────────────────────────────────────

/-- The text that an item is. -/
def textOf : Item → Option String
  | .text value => some value
  | _ => none

/-- What an item says about persistence: a table with the two texts, or an array that
    begins with them. -/
def persistenceOf : Item → Option Persistence
  | .table _ members => do
      let file ← textOf (← members.lookup "file")
      match members.lookup "interval" with
      | none => return ⟨file, defaultInterval⟩
      | some item => return ⟨file, ← textOf item⟩
  | .array (file :: interval :: _) => do return ⟨← textOf file, ← textOf interval⟩
  | .array [file] => do return ⟨← textOf file, defaultInterval⟩
  | _ => none

/-- The settings that the members of a document give. -/
def ofMembers (members : Members) : Option Settings :=
  match members.lookup "persistence" with
  | none => some inMemory
  | some item => do return ⟨some (← persistenceOf item)⟩

/-- The settings that a TOML document gives. -/
def ofToml (text : String) : Except Fault Settings :=
  match (document? text.toList).bind ofMembers with
  | none => .error .document
  | some settings =>
      match settings.persistence with
      | none => .ok settings
      | some p => p.duration.map fun _ => settings

/-- The settings that the bytes of a file give, if there is one. -/
def ofFile (bytes : Option Bytes) : Except Fault Settings :=
  match bytes.bind Bytes.toText? with
  | none => .error .unreadable
  | some text => ofToml text

-- ── Writing ─────────────────────────────────────────────────────────────────

/-- A line with a key and a text. -/
def assignmentText (key value : String) : List Char :=
  key.toList ++ " = ".toList ++ stringText value.toList ++ [lineFeed]

/-- The settings as a TOML document. -/
def toToml (s : Settings) : String :=
  match s.persistence with
  | none => ""
  | some p => String.ofList ("[persistence]".toList ++ [lineFeed] ++ assignmentText "file" p.file
      ++ assignmentText "interval" p.interval)

end Settings

end MetricDepot
