import MetricDepot.Proofs.Toml.Lines
import MetricDepot.Settings.Basic
/-!
# Round trips — settings survive their document

    Settings with a file are written as three lines: a header, the file and the interval.  Both
    texts survive as strings whatever is in them, so the document says the settings again.  What
    is read is judged, however, and what is written is not: the settings come back only if their
    interval is a duration.
-/

namespace MetricDepot.Settings

open Toml

-- ── The document of settings ────────────────────────────────────────────────

/-- A document up to the lines of the persistence table that give these members. -/
def progressOf (members : Members) : Progress :=
  ⟨[("persistence", .table .header members)], ["persistence"]⟩

theorem openTable_start : Progress.start.openTable [] (String.ofList "persistence".toList)
    = some (progressOf []) := rfl

theorem addPair_file (file : Item) :
    (progressOf []).addPair [] (String.ofList "file".toList) file = some (progressOf [("file", file)]) := rfl

theorem addPair_interval (file interval : Item) :
    (progressOf [("file", file)]).addPair [] (String.ofList "interval".toList) interval
      = some (progressOf [("file", file), ("interval", interval)]) := rfl

/-- A key and a text on a line of their own, in front of the lines behind them. -/
theorem assignmentText_append (key value : String) (s : List Char) :
    assignmentText key value ++ s
      = key.toList ++ ' ' :: '=' :: ' ' :: (stringText value.toList ++ lineFeed :: s) := by
  rw [assignmentText, List.append_assoc, List.append_assoc, List.append_assoc]
  rfl

theorem toList_toToml (p : Persistence) :
    (toToml ⟨some p⟩).toList = '[' :: ("persistence".toList ++ ']' :: lineFeed ::
      (assignmentText "file" p.file ++ (assignmentText "interval" p.interval ++ []))) := by
  rw [toToml, String.toList_ofList, List.append_assoc, List.append_nil]
  rfl

theorem lines_toToml (fuel : Nat) (p : Persistence) :
    lines (fuel + 3) .start (toToml ⟨some p⟩).toList
      = some (progressOf [("file", .text p.file), ("interval", .text p.interval)], []) := by
  have hfile := line_assignment (by decide) (addPair_file (.text (String.ofList p.file.toList)))
    (assignmentText "interval" p.interval ++ [])
  have hinterval := line_assignment (by decide)
    (addPair_interval (.text (String.ofList p.file.toList)) (.text (String.ofList p.interval.toList))) []
  rw [← assignmentText_append, String.ofList_toList] at hfile hinterval
  rw [String.ofList_toList] at hinterval
  rw [toList_toToml, lines_of_line (line_header (by decide) openTable_start _) (by simp),
    lines_of_line hfile (by simp [assignmentText]), lines_of_line hinterval (by simp [assignmentText]),
    lines_nil]

/-- The document of settings says the settings. -/
theorem ofMembers_document (s : Settings) : (document? (toToml s).toList).bind ofMembers = some s := by
  obtain ⟨persistence⟩ := s
  cases persistence with
  | none => rfl
  | some p =>
    obtain ⟨fuel, hfuel⟩ : ∃ fuel, (toToml ⟨some p⟩).toList.length + 1 = fuel + 3 := by
      rw [toList_toToml]
      exact ⟨_, rfl⟩
    have hmark : (toToml ⟨some p⟩).toList.head? ≠ some byteOrderMark := by
      rw [toList_toToml]
      exact head?_ne (by decide) _
    rw [document?, if_neg hmark, hfuel]
    have hlines : (lines (fuel + 3) .start).run (toToml ⟨some p⟩).toList = _ := lines_toToml fuel p
    rw [hlines]
    rfl

/-- **Settings survive their document if their interval is a duration**, whatever the texts in
    them; if it is none, the document is refused for it. Settings in memory have none. -/
theorem ofToml_toToml (file interval : String) :
    ofToml (toToml (withFile file interval)) = (match Duration.parse? interval with
        | some _ => .ok (withFile file interval)
        | none => .error (.interval interval)) ∧
      ofToml (toToml inMemory) = .ok inMemory := by
  constructor
  · rw [ofToml, ofMembers_document, withFile]
    dsimp only
    rw [Persistence.duration]
    dsimp only
    cases Duration.parse? interval with
    | some d => rfl
    | none => rfl
  · rw [ofToml, ofMembers_document]
    rfl

end MetricDepot.Settings
