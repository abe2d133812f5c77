import MetricDepot.FileSystem.IoError
/-!
# Route — a path as it is written

A route is read from the left and begins at the root. Slashes separate its steps: a name
leads into what stands under the name, two full stops lead back up, and a single full stop,
like nothing at all, stays where one is. How a route ends says what is asked for: behind a
slash there may be only a directory, and a full stop names the directory in front of it.

Whether a step can be taken is for the file system to say. So steps are not cancelled
against each other: `a/../b` leads nowhere while there is no directory `a`.
-/

namespace MetricDepot

/-- One step of a route. -/
inductive Step where
  | up
  | into (name : String)
deriving DecidableEq, Repr

namespace Step

/-- The step that a piece of a route between its slashes asks for, if any. -/
def ofPiece? (piece : String) : Option Step :=
  if piece = "" ∨ piece = "." then none
  else if piece = ".." then some .up
  else some (.into piece)

/-- The piece that asks for a step. -/
def text : Step → String
  | .up => ".."
  | .into name => name

end Step

/-- What a route ends with, behind its last step. -/
inductive Ending where
  | nothing
  | slash
  | fullStop
deriving DecidableEq, Repr

/-- The steps of a path text, and what it ends with. -/
structure Route where
  steps : List Step
  ending : Ending
deriving DecidableEq, Repr

namespace Route

/-- The greatest number of bytes in the text of a route. -/
def textLimit : Nat := 4095

/-- The pieces of a text between its slashes. -/
def pieces : List Char → List (List Char)
  | [] => [[]]
  | c :: rest =>
      if c = '/' then [] :: pieces rest
      else
        match pieces rest with
        | [] => [[c]]
        | piece :: more => (c :: piece) :: more

/-- The pieces of a text, each as a text. -/
def piecesOf (text : String) : List String := (pieces text.toList).map String.ofList

/-- The steps that a text asks for. -/
def stepsOf (text : String) : List Step := (piecesOf text).filterMap Step.ofPiece?

/-- What a text ends with. Slashes behind a full stop change nothing. -/
def endingOf (text : String) : Ending :=
  let backwards := (piecesOf text).reverse
  if (backwards.dropWhile (· == "")).head? = some "." then .fullStop
  else if backwards.head? = some "" then .slash
  else .nothing

/-- The route that a text describes. A text may not be too long, and the zero character
    stands in no name. -/
def ofText (text : String) : Except IoError Route :=
  if text.toList.contains (Char.ofNat 0) then .error .invalidName
  else if textLimit < text.utf8ByteSize then .error .nameTooLong
  else .ok ⟨stepsOf text, endingOf text⟩

/-- The text of the route that ends one step earlier. -/
def parentOf (text : String) : String := "/".intercalate ((stepsOf text).dropLast.map Step.text)

/-- The beginnings of a list that are neither empty nor the whole, the shortest first. -/
def beginnings {α : Type} : List α → List (List α)
  | [] => []
  | [_] => []
  | a :: rest => [a] :: (beginnings rest).map (a :: ·)

/-- The routes to the directories that a route leads through, the outermost first. -/
def ancestors (r : Route) : List Route := (beginnings r.steps).map fun steps => ⟨steps, .nothing⟩

end Route

end MetricDepot
