import MetricDepot.FileSystem.Disk
/-!
# Volume — a file system with links

A volume is a file system in which a name may be one of several for a file, or may lead
elsewhere. What stands at a place is the number of a file, a directory or a symbolic link;
the bytes of a file are kept under its number.

A symbolic link is a route, to be taken from the root or from the directory that the link is
in. Where a link is on the way, one goes on along its route, and so one does where it is at
the end and a file is read or written. What is made or moved is the name itself. Few links
may be followed on one way. Whoever looks for something looks at one place after another;
a search says at which ones.

Files without a name, pipes and devices are left out, and so is the moving of directories.
-/

namespace MetricDepot

open FileSystem (Goal nameLimit)

/-- Where a symbolic link leads. -/
structure Link where
  absolute : Bool
  route : Route
deriving DecidableEq

namespace Link

/-- Where the route of a link begins, if the link is in a directory. -/
def origin (l : Link) (here : Path) : Path := if l.absolute then [] else here

/-- The route of a link with further steps behind it. -/
def onward (l : Link) (rest : List Step) (ending : Ending) : Route :=
  ⟨l.route.steps ++ rest, if rest = [] ∧ ending = .nothing then l.route.ending else ending⟩

end Link

/-- What stands at a place. -/
inductive Entry where
  | file (number : Nat)
  | directory
  | link (target : Link)
deriving DecidableEq

/-- What stands at the places below the root, and the bytes of the files by their numbers, of
    which those from `next` on are free. -/
structure Volume where
  entries : Path → Option Entry
  contents : Nat → Bytes
  next : Nat
  numbered : ∀ p number, entries p = some (.file number) → number < next

/-- Whether a number that stands at a place is below a bound. -/
def Entry.fits (next : Nat) : Entry → Bool
  | .file number => number < next
  | _ => true

/-- The volume with these names, and with these files by their numbers. -/
def Volume.ofNames (names : List (Path × Entry)) (files : List Bytes)
    (fits : names.all (fun e => e.2.fits files.length) = true) : Volume where
  entries p := names.lookup p
  contents number := files.getD number []
  next := files.length
  numbered p number h := by
    obtain ⟨before, behind, rfl, -⟩ := List.lookup_eq_some_iff.mp h
    exact of_decide_eq_true (List.all_eq_true.mp fits _ List.mem_append_cons_self)

/-- The places that were looked at, in order, and what was found. -/
structure Search where
  visited : List Path
  found : Except IoError Goal

/-- The search that looks at a place first. -/
def Search.after (p : Path) (s : Search) : Search := ⟨p :: s.visited, s.found⟩

namespace Volume

-- ── Entries ─────────────────────────────────────────────────────────────────

/-- What stands at a path, whatever stands on the way to it. -/
def find? (v : Volume) (p : Path) : Option Entry :=
  if p = [] then some .directory else v.entries p

/-- The bytes of the file at a path. -/
def bytesAt? (v : Volume) (p : Path) : Option Bytes :=
  match v.find? p with
  | some (.file number) => some (v.contents number)
  | _ => none

/-- Replaces the bytes of a file, under all of its names. -/
def overwrite (v : Volume) (number : Nat) (bytes : Bytes) : Volume :=
  { v with contents := fun n => if n = number then bytes else v.contents n }

/-- Makes an empty file. -/
def newFile (v : Volume) (p : Path) : Volume where
  entries q := if q = p then some (.file v.next) else v.entries q
  contents n := if n = v.next then [] else v.contents n
  next := v.next + 1
  numbered q number h := by
    split at h
    · obtain rfl := Entry.file.inj (Option.some.inj h)
      exact Nat.lt_succ_self _
    · exact Nat.lt_succ_of_lt (v.numbered q number h)

/-- Makes a directory. -/
def newDirectory (v : Volume) (p : Path) : Volume :=
  { v with
    entries := fun q => if q = p then some .directory else v.entries q
    numbered := fun q number h => by
      split at h
      · cases h
      · exact v.numbered q number h }

/-- Moves a name. -/
def move (v : Volume) (origin p : Path) : Volume :=
  { v with
    entries := fun q => if q = p then v.entries origin else if q = origin then none else v.entries q
    numbered := fun q number h => by
      split at h
      · exact v.numbered origin number h
      · split at h
        · cases h
        · exact v.numbered q number h }

-- ── Searching ───────────────────────────────────────────────────────────────

/-- The greatest number of links on one way. -/
def linkLimit : Nat := 40

/-- Whether a symbolic link stands at a path. -/
def isLink (v : Volume) (p : Path) : Bool :=
  match v.find? p with
  | some (.link _) => true
  | _ => false

/-- Whether a search ends at the place under a name: no steps come behind the name, and it is not
    the name of a link that is to be followed. -/
def isEnd (v : Volume) (follow : Bool) (rest : List Step) (ending : Ending) (p : Path) : Bool :=
  rest.isEmpty && ending != .fullStop && !(follow && v.isLink p)

/-- Takes steps from a directory. Where a link leads, `chase` goes on. -/
def seekWith (v : Volume) (follow : Bool) (ending : Ending) (chase : Path → Route → Search) :
    Path → List Step → Search
  | here, [] => ⟨[], .ok (.directory here)⟩
  | here, .up :: rest => v.seekWith follow ending chase here.dropLast rest
  | here, .into name :: rest =>
      let p := here ++ [name]
      if nameLimit < name.utf8ByteSize then ⟨[], .error .nameTooLong⟩
      else
        Search.after p <|
          if v.isEnd follow rest ending p then ⟨[], .ok (.entry p (ending == .slash))⟩
          else
            match v.find? p with
            | some .directory => v.seekWith follow ending chase p rest
            | some (.link l) => chase (l.origin here) (l.onward rest ending)
            | some (.file _) => ⟨[], .error .notADirectory⟩
            | none => ⟨[], .error .notFound⟩

/-- Takes a route from a directory, along at most so many links. -/
def seek (v : Volume) (follow : Bool) : (links : Nat) → Path → Route → Search
  | 0, here, r => v.seekWith follow r.ending (fun _ _ => ⟨[], .error .tooManyLinks⟩) here r.steps
  | links + 1, here, r => v.seekWith follow r.ending (v.seek follow links) here r.steps

/-- The search for what a path text leads to: for the name itself, or, if links are followed,
    for what the name leads to. -/
def look (v : Volume) (follow : Bool) (text : String) : Search :=
  match Route.ofText text with
  | .ok r => v.seek follow linkLimit [] r
  | .error e => ⟨[], .error e⟩

/-- The number of the file to which a path text leads. -/
def file (v : Volume) (text : String) : Except IoError Nat := do
  match ← (v.look true text).found with
  | .directory _ => throw .isADirectory
  | .entry p slash =>
      match v.find? p with
      | some (.file number) => if slash then throw .notADirectory else return number
      | some .directory => throw .isADirectory
      | some (.link _) => throw .tooManyLinks
      | none => throw .notFound

/-- The place that a path text names, if a file is there or may be put there. -/
def slot (v : Volume) (text : String) : Except IoError Path := do
  match ← (v.look false text).found with
  | .directory _ => throw .isADirectory
  | .entry p slash =>
      if slash ∨ v.find? p = some .directory then throw .isADirectory else return p

-- ── Operations ──────────────────────────────────────────────────────────────

/-- The bytes of a file. -/
def read (v : Volume) (text : String) : Except IoError Bytes := (v.file text).map v.contents

/-- Makes an empty file, or empties the one that is there. -/
def create (v : Volume) (text : String) : Except IoError Volume := do
  match ← (v.look true text).found with
  | .directory _ => throw .isADirectory
  | .entry p slash =>
      if slash then throw .isADirectory
      match v.find? p with
      | some (.file number) => return v.overwrite number []
      | some .directory => throw .isADirectory
      | some (.link _) => throw .tooManyLinks
      | none => return v.newFile p

/-- Writes bytes behind those of a file. -/
def append (v : Volume) (text : String) (bytes : Bytes) : Except IoError Volume :=
  (v.file text).map fun number => v.overwrite number (v.contents number ++ bytes)

/-- Moves the name of a file, or a link, to a place, where it replaces what may be there. Where
    another name of the same file is there, nothing is done. -/
def rename (v : Volume) (source target : String) : Except IoError Volume := do
  match ← (v.look false source).found with
  | .directory _ => throw .isADirectory
  | .entry origin slash =>
      match v.find? origin with
      | none => throw .notFound
      | some .directory => throw .isADirectory
      | some moved =>
          if slash then throw .notADirectory
          let p ← v.slot target
          match moved, v.find? p with
          | .file number, some (.file other) =>
              return if number = other then v else v.move origin p
          | _, _ => return v.move origin p

/-- Whether a route leads to a directory. -/
def isDirectory (v : Volume) (r : Route) : Bool :=
  match (v.seek true linkLimit [] r).found with
  | .ok (.directory _) => true
  | .ok (.entry p _) => v.find? p = some .directory
  | .error _ => false

/-- Makes one directory, unless it is there, or a link to it. -/
def makeDirectory (v : Volume) (r : Route) : Except IoError Volume := do
  match ← (v.seek false linkLimit [] r).found with
  | .directory _ => return v
  | .entry p _ =>
      match v.find? p with
      | some .directory => return v
      | some (.file _) => throw .alreadyExists
      | some (.link _) => if v.isDirectory r then return v else throw .alreadyExists
      | none => return v.newDirectory p

instance : Files Volume := ⟨read, makeDirectory, create, append, rename⟩

end Volume

end MetricDepot
