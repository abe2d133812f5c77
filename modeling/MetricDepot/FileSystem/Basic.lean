import MetricDepot.Bytes
import MetricDepot.FileSystem.Route
import MetricDepot.SortedMap
/-!
# File system — a tree of files and directories

A file system says what stands at each place below a root, which is a directory. Whoever
wants something done names the place by the text of a route. The route is walked step by
step: what is on the way must be there and be a directory.

Nothing stands at two places, and nothing leads elsewhere: there are no second names of a
file and no symbolic links. A file system that has them is a `Volume`.
-/

namespace MetricDepot

/-- A place below the root, by the names on the way to it. -/
abbrev Path := List String

/-- The text of a path. -/
def Path.text (p : Path) : String := "/".intercalate p

/-- What stands at a path. -/
inductive Node where
  | file (bytes : Bytes)
  | directory
deriving DecidableEq

/-- The nodes below the root. -/
structure FileSystem where
  nodes : List (Path × Node)

namespace FileSystem

/-- The file system that has only its root. -/
def empty : FileSystem := ⟨[]⟩

instance : Inhabited FileSystem := ⟨empty⟩

-- ── Nodes ───────────────────────────────────────────────────────────────────

/-- What stands at a path, whatever stands on the way to it. -/
def find? (fs : FileSystem) (p : Path) : Option Node :=
  if p = [] then some .directory else fs.nodes.lookup p

/-- Puts a node at a path. -/
def put (fs : FileSystem) (p : Path) (node : Node) : FileSystem :=
  ⟨(p, node) :: fs.nodes.filter (·.1 != p)⟩

/-- Takes away what stands at a path. -/
def remove (fs : FileSystem) (p : Path) : FileSystem := ⟨fs.nodes.filter (·.1 != p)⟩

/-- Putting a node changes what stands at its path and at no other. -/
theorem find?_put (fs : FileSystem) {p : Path} (hp : p ≠ []) (node : Node) (q : Path) :
    (fs.put p node).find? q = if q = p then some node else fs.find? q := by
  by_cases hroot : q = []
  · subst hroot
    rw [if_neg (Ne.symm hp)]
    rfl
  · rw [find?, if_neg hroot, find?, if_neg hroot, put, lookup_cons_eq]
    by_cases hq : q = p
    · rw [if_pos hq, if_pos hq]
    · rw [if_neg hq, if_neg hq, lookup_filter_ne, if_neg hq]

/-- Taking a node away leaves nothing at its path and changes no other. -/
theorem find?_remove (fs : FileSystem) {p : Path} (hp : p ≠ []) (q : Path) :
    (fs.remove p).find? q = if q = p then none else fs.find? q := by
  by_cases hroot : q = []
  · subst hroot
    rw [if_neg (Ne.symm hp)]
    rfl
  · rw [find?, if_neg hroot, find?, if_neg hroot]
    exact lookup_filter_ne fs.nodes p q

-- ── Walking ─────────────────────────────────────────────────────────────────

/-- The greatest number of bytes in a name. -/
def nameLimit : Nat := 255

/-- The directory to which steps lead from a directory. There is no way up from the root. -/
def walk (fs : FileSystem) : Path → List Step → Except IoError Path
  | here, [] => .ok here
  | here, .up :: rest => fs.walk here.dropLast rest
  | here, .into name :: rest =>
      if nameLimit < name.utf8ByteSize then .error .nameTooLong
      else
        match fs.find? (here ++ [name]) with
        | some .directory => fs.walk (here ++ [name]) rest
        | some (.file _) => .error .notADirectory
        | none => .error .notFound

/-- Where a route leads: to a directory by itself, or to a name in a directory. Under the
    name there may be nothing yet, and where a slash follows the name, there may be nothing
    but a directory. -/
inductive Goal where
  | directory (path : Path)
  | entry (path : Path) (slash : Bool)
deriving DecidableEq, Repr

/-- The place of a name in the directory to which steps lead from the root. -/
def entry (fs : FileSystem) (steps : List Step) (name : String) (slash : Bool) :
    Except IoError Goal := do
  let parent ← fs.walk [] steps
  if nameLimit < name.utf8ByteSize then throw .nameTooLong
  return .entry (parent ++ [name]) slash

/-- Where a route leads. -/
def goal (fs : FileSystem) (r : Route) : Except IoError Goal :=
  match r.ending, r.steps.getLast? with
  | .nothing, some (.into name) => fs.entry r.steps.dropLast name false
  | .slash, some (.into name) => fs.entry r.steps.dropLast name true
  | _, _ => (fs.walk [] r.steps).map .directory

/-- Where a path text leads. -/
def look (fs : FileSystem) (text : String) : Except IoError Goal := do fs.goal (← Route.ofText text)

/-- The file to which a path text leads, by its place and its bytes. -/
def file (fs : FileSystem) (text : String) : Except IoError (Path × Bytes) := do
  match ← fs.look text with
  | .directory _ => throw .isADirectory
  | .entry path slash =>
      match fs.find? path with
      | some (.file bytes) => if slash then throw .notADirectory else return (path, bytes)
      | some .directory => throw .isADirectory
      | none => throw .notFound

/-- The place to which a path text leads, if a file is there or may be put there. -/
def slot (fs : FileSystem) (text : String) : Except IoError Path := do
  match ← fs.look text with
  | .directory _ => throw .isADirectory
  | .entry path slash =>
      if slash ∨ fs.find? path = some .directory then throw .isADirectory else return path

-- ── Operations ──────────────────────────────────────────────────────────────

/-- The bytes of a file. -/
def read (fs : FileSystem) (text : String) : Except IoError Bytes := (fs.file text).map (·.2)

/-- Makes an empty file, or empties the one that is there. -/
def create (fs : FileSystem) (text : String) : Except IoError FileSystem :=
  (fs.slot text).map fun path => fs.put path (.file [])

/-- Writes bytes behind those of a file. -/
def append (fs : FileSystem) (text : String) (bytes : Bytes) : Except IoError FileSystem :=
  (fs.file text).map fun (path, before) => fs.put path (.file (before ++ bytes))

/-- Writes a whole file, new or in place of the old one. -/
def write (fs : FileSystem) (text : String) (bytes : Bytes) : Except IoError FileSystem := do
  (← fs.create text).append text bytes

/-- Moves a file to a place, where it replaces the file that may be there. -/
def rename (fs : FileSystem) (source target : String) : Except IoError FileSystem := do
  let (origin, bytes) ← fs.file source
  let path ← fs.slot target
  return (fs.remove origin).put path (.file bytes)

/-- Makes one directory, unless it is there. -/
def makeDirectory (fs : FileSystem) (r : Route) : Except IoError FileSystem := do
  match ← fs.goal r with
  | .directory _ => return fs
  | .entry path _ =>
      match fs.find? path with
      | some .directory => return fs
      | some (.file _) => throw .alreadyExists
      | none => return fs.put path .directory

/-- Takes away everything below a directory. -/
def clear (fs : FileSystem) (p : Path) : FileSystem :=
  ⟨fs.nodes.filter fun (q, _) => !p.isPrefixOf q || q == p⟩

/-- Takes away a directory with everything below it. What is below it goes first, and its
    route is walked once more: a route through what has just gone leads nowhere then, and
    the directory stays. So does a directory that a full stop names, but this is refused. -/
def removeDirectory (fs : FileSystem) (r : Route) (p : Path) : FileSystem × Except IoError Unit :=
  let fs := fs.clear p
  match fs.goal r with
  | .ok (.entry path _) => (fs.remove path, .ok ())
  | .ok (.directory _) => (fs, if r.ending = .fullStop then .error .invalidName else .ok ())
  | .error .notFound => (fs, .ok ())
  | .error e => (fs, .error e)

/-- Takes away a file, or a directory with everything below it. -/
def removeTree (fs : FileSystem) (text : String) : FileSystem × Except IoError Unit :=
  match Route.ofText text with
  | .error e => (fs, .error e)
  | .ok r =>
      match fs.goal r with
      | .error e => (fs, .error e)
      | .ok (.directory path) => fs.removeDirectory r path
      | .ok (.entry path slash) =>
          match fs.find? path with
          | some .directory => fs.removeDirectory r path
          | some (.file _) => if slash then (fs, .error .notADirectory) else (fs.remove path, .ok ())
          | none => (fs, .error .notFound)

/-- The text of every path below the root, ascending, directories with a slash behind. -/
def listing (fs : FileSystem) : List String :=
  (SortedMap.ofList (fs.nodes.map fun (p, node) =>
    match node with
    | .file _ => (p.text, ())
    | .directory => (p.text ++ "/", ()))).keys

end FileSystem

end MetricDepot
