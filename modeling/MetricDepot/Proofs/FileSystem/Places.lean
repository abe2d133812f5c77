import MetricDepot.FileSystem.Disk
import MetricDepot.Proofs.Answer
/-!
# Places — what an effect can change

    The steps of a route spell out a place, and a walk that gets through ends there whatever
    the file system holds.  So the place that a text names is fixed, and one can speak of the
    bytes of the file there without asking whether the way to it can be walked just now.

    `Alters places fs fs'` says that from `fs` to `fs'` no file has changed but those at the
    given places, and that no directory has gone.  `alters_perform` is the frame of every
    effect, done wholly, done in part or not at all: it alters nothing but the places that
    it names.
-/

namespace MetricDepot

namespace Route

/-- Where steps lead from a place, if they can be taken. -/
def lands : Path → List Step → Path
  | here, [] => here
  | here, .up :: rest => lands here.dropLast rest
  | here, .into name :: rest => lands (here ++ [name]) rest

/-- Steps lead on from where the steps before them have led. -/
theorem lands_append (here : Path) (steps more : List Step) :
    lands here (steps ++ more) = lands (lands here steps) more := by
  induction steps generalizing here with
  | nil => rfl
  | cons step steps ih =>
    cases step with
    | up => exact ih here.dropLast
    | into name => exact ih (here ++ [name])

/-- The place that a text names, unless it names a directory. -/
def placeOf? (text : String) : Option Path :=
  match ofText text with
  | .error _ => none
  | .ok r =>
      match r.ending, r.steps.getLast? with
      | .nothing, some (.into _) => some (lands [] r.steps)
      | _, _ => none

end Route

namespace FileSystem

open Route

variable {fs fs' fs'' : FileSystem} {text : String} {p : Path}

-- ── Ways ────────────────────────────────────────────────────────────────────

/-- A walk gets into a directory that has the name, and goes on from there. -/
theorem walk_into_eq_ok {here : Path} {name : String} {steps : List Step} :
    fs.walk here (.into name :: steps) = .ok p ↔
      ¬ nameLimit < name.utf8ByteSize ∧ fs.find? (here ++ [name]) = some .directory ∧
        fs.walk (here ++ [name]) steps = .ok p := by
  rw [walk]
  constructor
  · intro h
    split at h
    · cases h
    next hshort =>
      split at h
      next hfound => exact ⟨hshort, hfound, h⟩
      · cases h
      · cases h
  · rintro ⟨hshort, hfound, h⟩
    rw [if_neg hshort, hfound]
    exact h

/-- A walk ends where its steps lead. -/
theorem eq_lands_of_walk {here : Path} {steps : List Step} (h : fs.walk here steps = .ok p) :
    p = lands here steps := by
  induction steps generalizing here with
  | nil => exact (Except.ok.inj h).symm
  | cons step steps ih =>
    cases step with
    | up => exact ih h
    | into name =>
      obtain ⟨-, -, hrest⟩ := walk_into_eq_ok.mp h
      exact ih hrest

/-- A route that ends with a name leads to what is at the end of its way under the name, unless
    its text goes on behind it; any other route is walked to its end. -/
theorem goal_eq (r : Route) :
    (∃ way name slash, r.steps = way ++ [.into name] ∧ r.ending = (if slash then .slash else .nothing) ∧
      ∀ fs : FileSystem, fs.goal r = fs.entry way name slash) ∨
    ∀ fs : FileSystem, fs.goal r = (fs.walk [] r.steps).map .directory := by
  obtain ⟨steps, ending⟩ := r
  have hwalked : (∀ name, steps.getLast? ≠ some (.into name)) →
      ∀ fs : FileSystem, fs.goal ⟨steps, ending⟩ = (fs.walk [] steps).map .directory := by
    intro hlast fs
    rw [goal]
    split
    next name _ hname => exact absurd hname (hlast name)
    next name _ hname => exact absurd hname (hlast name)
    next => rfl
  by_cases hlast : ∀ name, steps.getLast? ≠ some (.into name)
  · exact Or.inr (hwalked hlast)
  · obtain ⟨name, hname⟩ : ∃ name, steps.getLast? = some (.into name) := by simpa using hlast
    obtain ⟨way, rfl⟩ := List.getLast?_eq_some_iff.mp hname
    have hentry : ∀ (fs : FileSystem) (slash : Bool),
        fs.goal ⟨way ++ [.into name], if slash then .slash else .nothing⟩ = fs.entry way name slash := by
      intro fs slash
      rw [goal, List.getLast?_concat, List.dropLast_concat]
      cases slash with
      | true => rfl
      | false => rfl
    cases ending with
    | nothing => exact Or.inl ⟨way, name, false, rfl, rfl, fun fs => hentry fs false⟩
    | slash => exact Or.inl ⟨way, name, true, rfl, rfl, fun fs => hentry fs true⟩
    | fullStop => exact Or.inr fun fs => rfl

/-- What leads to a place has walked a way and names what is at its end. -/
theorem goal_eq_entry {r : Route} {slash : Bool} (h : fs.goal r = .ok (.entry p slash)) :
    ∃ way name parent, r.steps = way ++ [.into name] ∧ r.ending = (if slash then .slash else .nothing) ∧
      fs.walk [] way = .ok parent ∧ ¬ nameLimit < name.utf8ByteSize ∧ p = parent ++ [name] := by
  rcases goal_eq r with ⟨way, name, other, hsteps, hending, hgoal⟩ | hgoal
  · rw [hgoal] at h
    obtain ⟨parent, hwalk, h⟩ := bind_eq_ok.mp h
    obtain ⟨hshort, h⟩ := guard_eq_ok.mp h
    obtain ⟨hp, rfl⟩ := Goal.entry.inj (Except.ok.inj h)
    exact ⟨way, name, parent, hsteps, hending, hwalk, hshort, hp.symm⟩
  · rw [hgoal] at h
    obtain ⟨path, -, hpath⟩ := map_eq_ok.mp h
    cases hpath

/-- A route that leads to a name leads where its steps lead. -/
theorem place_of_goal {r : Route} {slash : Bool} (h : fs.goal r = .ok (.entry p slash)) :
    p = lands [] r.steps := by
  obtain ⟨way, name, parent, hsteps, -, hwalk, -, rfl⟩ := goal_eq_entry h
  rw [hsteps, lands_append, ← eq_lands_of_walk hwalk]
  rfl

/-- A text that leads to a name leads to the place that it names. -/
theorem placeOf?_of_look (h : fs.look text = .ok (.entry p false)) : placeOf? text = some p := by
  obtain ⟨r, hr, hgoal⟩ := bind_eq_ok.mp h
  obtain ⟨way, name, -, hsteps, hending, -⟩ := goal_eq_entry hgoal
  have hlast : r.steps.getLast? = some (.into name) := by rw [hsteps, List.getLast?_concat]
  rw [if_neg Bool.false_ne_true] at hending
  rw [placeOf?, hr]
  dsimp only
  rw [hending, hlast, place_of_goal hgoal]

/-- A text leads to a file where it leads to its place without a slash behind the name. -/
theorem file_eq_ok {bytes : Bytes} :
    fs.file text = .ok (p, bytes) ↔
      fs.look text = .ok (.entry p false) ∧ fs.find? p = some (.file bytes) := by
  constructor
  · intro h
    obtain ⟨goal, hlook, h⟩ := bind_eq_ok.mp h
    cases goal with
    | directory path => cases h
    | entry path slash =>
      dsimp only at h
      split at h
      next found hfound =>
        cases slash with
        | true => cases h
        | false =>
          obtain ⟨rfl, rfl⟩ := Prod.mk.inj (Except.ok.inj h)
          exact ⟨hlook, hfound⟩
      next => cases h
      next => cases h
  · rintro ⟨hlook, hfound⟩
    refine bind_eq_ok.mpr ⟨_, hlook, ?_⟩
    dsimp only
    rw [hfound]
    rfl

/-- A file may be put where no directory is. -/
theorem slot_eq_ok :
    fs.slot text = .ok p ↔
      fs.look text = .ok (.entry p false) ∧ fs.find? p ≠ some .directory := by
  constructor
  · intro h
    obtain ⟨goal, hlook, h⟩ := bind_eq_ok.mp h
    cases goal with
    | directory path => cases h
    | entry path slash =>
      dsimp only at h
      split at h
      · cases h
      next hfree =>
        cases slash with
        | true => exact absurd (Or.inl rfl) hfree
        | false =>
          obtain rfl := Except.ok.inj h
          exact ⟨hlook, fun hdirectory => hfree (Or.inr hdirectory)⟩
  · rintro ⟨hlook, hfree⟩
    refine bind_eq_ok.mpr ⟨_, hlook, ?_⟩
    dsimp only
    rw [if_neg]
    · rfl
    · rintro (hslash | hdirectory)
      · cases hslash
      · exact hfree hdirectory

/-- What is read are the bytes of the file that is there. -/
theorem read_eq_ok {bytes : Bytes} :
    fs.read text = .ok bytes ↔
      ∃ p, fs.look text = .ok (.entry p false) ∧ fs.find? p = some (.file bytes) := by
  rw [read, map_eq_ok]
  constructor
  · rintro ⟨⟨p, found⟩, h, rfl⟩
    exact ⟨p, file_eq_ok.mp h⟩
  · rintro ⟨p, h⟩
    exact ⟨(p, bytes), file_eq_ok.mpr h, rfl⟩

-- ── What stays when directories stay ────────────────────────────────────────

/-- A walk that gets through still does so when no directory has gone. -/
theorem walk_of_directories
    (h : ∀ p, fs.find? p = some .directory → fs'.find? p = some .directory) {here : Path}
    {steps : List Step} (hwalk : fs.walk here steps = .ok p) : fs'.walk here steps = .ok p := by
  induction steps generalizing here with
  | nil => exact hwalk
  | cons step steps ih =>
    cases step with
    | up => exact ih hwalk
    | into name =>
      obtain ⟨hshort, hfound, hrest⟩ := walk_into_eq_ok.mp hwalk
      exact walk_into_eq_ok.mpr ⟨hshort, h _ hfound, ih hrest⟩

/-- A name at the end of a walk is still there when no directory has gone. -/
theorem entry_of_directories
    (h : ∀ p, fs.find? p = some .directory → fs'.find? p = some .directory) {steps : List Step}
    {name : String} {slash : Bool} {goal : Goal} (hentry : fs.entry steps name slash = .ok goal) :
    fs'.entry steps name slash = .ok goal := by
  obtain ⟨parent, hwalk, hname⟩ := bind_eq_ok.mp hentry
  exact bind_eq_ok.mpr ⟨parent, walk_of_directories h hwalk, hname⟩

/-- Where a text leads it still leads when no directory has gone. -/
theorem look_of_directories
    (h : ∀ p, fs.find? p = some .directory → fs'.find? p = some .directory) {g : Goal}
    (hlook : fs.look text = .ok g) : fs'.look text = .ok g := by
  obtain ⟨r, hr, hgoal⟩ := bind_eq_ok.mp hlook
  refine bind_eq_ok.mpr ⟨r, hr, ?_⟩
  rcases goal_eq r with ⟨way, name, slash, -, -, hname⟩ | hwalked
  · rw [hname] at hgoal ⊢
    exact entry_of_directories h hgoal
  · rw [hwalked] at hgoal ⊢
    obtain ⟨path, hwalk, hpath⟩ := map_eq_ok.mp hgoal
    exact map_eq_ok.mpr ⟨path, walk_of_directories h hwalk, hpath⟩

-- ── Files at places ─────────────────────────────────────────────────────────

/-- The bytes of the file at a place. -/
def bytesAt? (fs : FileSystem) (p : Path) : Option Bytes :=
  match fs.find? p with
  | some (.file bytes) => some bytes
  | _ => none

/-- The bytes of the file at the place that a text names. -/
def content? (fs : FileSystem) (text : String) : Option Bytes := (placeOf? text).bind fs.bytesAt?

/-- Files change at most at some places, and directories stay. -/
structure Alters (places : List Path) (fs fs' : FileSystem) : Prop where
  bytes : ∀ p, p ∉ places → fs'.bytesAt? p = fs.bytesAt? p
  directories : ∀ p, fs.find? p = some .directory → fs'.find? p = some .directory

/-- The file of a text is the same, and can still be read if it could be. Where it could not be,
    for want of a directory on the way, it may be read now: once `a` is made, `a/../b` leads to the
    file that stood at `b` all along. -/
structure Untouched (text : String) (fs fs' : FileSystem) : Prop where
  content : fs'.content? text = fs.content? text
  read : ∀ bytes, fs.read text = .ok bytes → fs'.read text = .ok bytes

/-- Bytes are those of a file. -/
theorem bytesAt?_eq_some {bytes : Bytes} :
    fs.bytesAt? p = some bytes ↔ fs.find? p = some (.file bytes) := by
  rw [bytesAt?]
  split
  next found hfound =>
    rw [hfound, Option.some.injEq, Option.some.injEq, Node.file.injEq]
  next hno =>
    constructor
    · intro h
      cases h
    · intro h
      exact absurd h (hno bytes)

/-- Where no directory is, the root is not. -/
theorem ne_root (h : fs.find? p ≠ some .directory) : p ≠ [] := by
  rintro rfl
  exact h rfl

theorem bytesAt?_of_find? (h : fs'.find? p = fs.find? p) : fs'.bytesAt? p = fs.bytesAt? p := by
  rw [bytesAt?, bytesAt?, h]

theorem content?_of_place (h : placeOf? text = some p) : fs.content? text = fs.bytesAt? p := by
  rw [content?, h, Option.bind_some]

theorem Untouched.refl (text : String) (fs : FileSystem) : Untouched text fs fs :=
  ⟨rfl, fun _ h => h⟩

theorem Untouched.trans (h : Untouched text fs fs') (h' : Untouched text fs' fs'') :
    Untouched text fs fs'' :=
  ⟨h'.content.trans h.content, fun bytes hread => h'.read bytes (h.read bytes hread)⟩

namespace Alters

variable {places : List Path}

theorem refl (places : List Path) (fs : FileSystem) : Alters places fs fs :=
  ⟨fun _ _ => rfl, fun _ h => h⟩

theorem trans (h : Alters places fs fs') (h' : Alters places fs' fs'') : Alters places fs fs'' :=
  ⟨fun p hp => (h'.bytes p hp).trans (h.bytes p hp), fun p hp => h'.directories p (h.directories p hp)⟩

/-- What happens elsewhere leaves a file untouched. -/
theorem untouched (h : Alters places fs fs') (helse : ∀ p, placeOf? text = some p → p ∉ places) :
    Untouched text fs fs' := by
  refine ⟨?_, ?_⟩
  · cases hplace : placeOf? text with
    | none => rw [content?, content?, hplace, Option.bind_none, Option.bind_none]
    | some p =>
      rw [content?_of_place hplace, content?_of_place hplace]
      exact h.bytes p (helse p hplace)
  · intro bytes hread
    obtain ⟨p, hlook, hfound⟩ := read_eq_ok.mp hread
    refine read_eq_ok.mpr ⟨p, look_of_directories h.directories hlook, ?_⟩
    rw [← bytesAt?_eq_some, h.bytes p (helse p (placeOf?_of_look hlook))]
    exact bytesAt?_eq_some.mpr hfound

/-- A file takes the place of another, or of nothing. -/
theorem put (hfree : fs.find? p ≠ some .directory) (bytes : Bytes) :
    Alters [p] fs (fs.put p (.file bytes)) := by
  have hroot := ne_root hfree
  refine ⟨?_, ?_⟩
  · intro q hq
    refine bytesAt?_of_find? ?_
    rw [find?_put fs hroot, if_neg (fun heq => hq (List.mem_singleton.mpr heq))]
  · intro q hq
    rw [find?_put fs hroot, if_neg]
    · exact hq
    · intro heq
      exact hfree (heq ▸ hq)

end Alters

-- ── What effects alter ──────────────────────────────────────────────────────

/-- A file that is created is empty, and no other is altered. -/
theorem create_eq_ok (h : fs.create text = .ok fs') :
    ∃ p, placeOf? text = some p ∧ Alters [p] fs fs' ∧ fs'.content? text = some [] := by
  obtain ⟨p, hslot, rfl⟩ := map_eq_ok.mp h
  obtain ⟨hlook, hfree⟩ := slot_eq_ok.mp hslot
  have hplace := placeOf?_of_look hlook
  refine ⟨p, hplace, Alters.put hfree [], ?_⟩
  rw [content?_of_place hplace, bytesAt?_eq_some, find?_put fs (ne_root hfree), if_pos rfl]

/-- What is appended stands behind what was there, and no other file is altered. -/
theorem append_eq_ok {bytes : Bytes} (h : fs.append text bytes = .ok fs') :
    ∃ p before, placeOf? text = some p ∧ Alters [p] fs fs' ∧ fs.content? text = some before ∧
      fs'.content? text = some (before ++ bytes) := by
  obtain ⟨⟨p, before⟩, hfile, rfl⟩ := map_eq_ok.mp h
  obtain ⟨hlook, hfound⟩ := file_eq_ok.mp hfile
  have hplace := placeOf?_of_look hlook
  have hfree : fs.find? p ≠ some .directory := by
    rw [hfound]
    intro hno
    cases hno
  refine ⟨p, before, hplace, Alters.put hfree _, ?_, ?_⟩
  · rw [content?_of_place hplace]
    exact bytesAt?_eq_some.mpr hfound
  · rw [content?_of_place hplace, bytesAt?_eq_some, find?_put fs (ne_root hfree), if_pos rfl]

/-- A file that is moved leaves nothing behind, and stands in the place of what was there. -/
theorem find?_of_rename {source target : String} (h : fs.rename source target = .ok fs') :
    ∃ origin p bytes, fs.look source = .ok (.entry origin false) ∧
      fs.find? origin = some (.file bytes) ∧ fs.look target = .ok (.entry p false) ∧
      fs.find? p ≠ some .directory ∧
      ∀ q, fs'.find? q = if q = p then some (.file bytes) else if q = origin then none else fs.find? q := by
  obtain ⟨⟨origin, bytes⟩, hfile, h⟩ := bind_eq_ok.mp h
  obtain ⟨p, hslot, h⟩ := bind_eq_ok.mp h
  obtain rfl := Except.ok.inj h
  obtain ⟨hsource, hfound⟩ := file_eq_ok.mp hfile
  obtain ⟨htarget, hfree⟩ := slot_eq_ok.mp hslot
  have horigin : origin ≠ [] := by
    rintro rfl
    cases hfound
  refine ⟨origin, p, bytes, hsource, hfound, htarget, hfree, fun q => ?_⟩
  rw [find?_put _ (ne_root hfree), find?_remove _ horigin]

/-- A file that has been moved can be read under its new name. -/
theorem rename_eq_ok {source target : String} (h : fs.rename source target = .ok fs') :
    ∃ origin p bytes, placeOf? source = some origin ∧ placeOf? target = some p ∧
      Alters [origin, p] fs fs' ∧ fs.content? source = some bytes ∧ fs'.read target = .ok bytes := by
  obtain ⟨origin, p, bytes, hsource, hfound, htarget, hfree, hfind⟩ := find?_of_rename h
  -- a directory is neither what was moved nor what was written over
  have halters : Alters [origin, p] fs fs' := by
    refine ⟨?_, ?_⟩
    · intro q hq
      refine bytesAt?_of_find? ?_
      rw [hfind, if_neg (fun heq => hq (by simp [heq])), if_neg (fun heq => hq (by simp [heq]))]
    · intro q hq
      have hqp : q ≠ p := by
        rintro rfl
        exact hfree hq
      have hqo : q ≠ origin := by
        rintro rfl
        rw [hfound] at hq
        cases hq
      rw [hfind, if_neg hqp, if_neg hqo]
      exact hq
  refine ⟨origin, p, bytes, placeOf?_of_look hsource, placeOf?_of_look htarget, halters, ?_, ?_⟩
  · rw [content?_of_place (placeOf?_of_look hsource)]
    exact bytesAt?_eq_some.mpr hfound
  · refine read_eq_ok.mpr ⟨p, look_of_directories halters.directories htarget, ?_⟩
    rw [hfind, if_pos rfl]

/-- To make a directory where nothing is alters no file. -/
theorem alters_makeDirectory {r : Route} (h : fs.makeDirectory r = .ok fs') : Alters [] fs fs' := by
  obtain ⟨goal, -, h⟩ := bind_eq_ok.mp h
  cases goal with
  | directory path =>
    obtain rfl := Except.ok.inj h
    exact .refl _ _
  | entry p slash =>
    dsimp only at h
    split at h
    next =>
      obtain rfl := Except.ok.inj h
      exact .refl _ _
    next => cases h
    next hnothing =>
      obtain rfl := Except.ok.inj h
      have hroot : p ≠ [] := by
        rintro rfl
        cases hnothing
      refine ⟨?_, ?_⟩
      · intro q _
        by_cases hq : q = p
        · rw [bytesAt?, bytesAt?, find?_put fs hroot, if_pos hq, hq, hnothing]
        · exact bytesAt?_of_find? (by rw [find?_put fs hroot, if_neg hq])
      · intro q hq
        have hqp : q ≠ p := by
          rintro rfl
          cases hq.symm.trans hnothing
        rw [find?_put fs hroot, if_neg hqp]
        exact hq

/-- To make directories alters no file. -/
theorem alters_makeEach (fs : FileSystem) (routes : List Route) :
    Alters [] fs (Files.makeEach fs routes).1 := by
  induction routes generalizing fs with
  | nil => exact .refl _ _
  | cons r routes ih =>
    rw [Files.makeEach]
    cases h : Files.makeDirectory fs r with
    | error e => exact .refl _ _
    | ok made => exact (alters_makeDirectory h).trans (ih made)

end FileSystem

-- ── The frame of an effect ──────────────────────────────────────────────────

open FileSystem Route

/-- The places whose files an effect may alter. -/
def Effect.places : Effect → List Path
  | .makeDirectories _ => []
  | .create route => (placeOf? route).toList
  | .append route _ => (placeOf? route).toList
  | .sync _ => []
  | .rename source target => (placeOf? source).toList ++ (placeOf? target).toList

namespace FileSystem

variable {fs : FileSystem}

theorem alters_outcome {places : List Path} {result : Except IoError FileSystem}
    (h : ∀ changed, result = .ok changed → Alters places fs changed) :
    Alters places fs (Files.outcome fs result).1 := by
  cases result with
  | ok changed => exact h changed rfl
  | error e => exact .refl _ _

/-- To append alters no other file, also where it cannot be done. -/
theorem alters_append (fs : FileSystem) (route : String) (bytes : Bytes) :
    Alters (placeOf? route).toList fs (Files.outcome fs (fs.append route bytes)).1 := by
  refine alters_outcome fun changed h => ?_
  obtain ⟨p, -, hplace, halters, -⟩ := append_eq_ok h
  rw [hplace]
  exact halters

/-- An effect that is done, or cannot be, alters only what it names. -/
theorem alters_done (fs : FileSystem) (e : Effect) : Alters e.places fs (Files.perform fs e).1 := by
  cases e with
  | makeDirectories route =>
    show Alters [] fs (Files.makeDirectories fs route).1
    rw [Files.makeDirectories]
    split
    · exact alters_makeEach fs _
    · exact .refl _ _
  | create route =>
    refine alters_outcome fun changed h => ?_
    obtain ⟨p, hplace, halters, -⟩ := create_eq_ok h
    rw [Effect.places, hplace]
    exact halters
  | append route bytes => exact alters_append fs route bytes
  | sync route => exact .refl _ _
  | rename source target =>
    refine alters_outcome fun changed h => ?_
    obtain ⟨origin, p, bytes, hsource, htarget, halters, -⟩ := rename_eq_ok h
    rw [Effect.places, hsource, htarget]
    exact halters

/-- So does an effect that is interrupted. -/
theorem alters_interrupted (fs : FileSystem) (done : Nat) (e : Effect) :
    Alters e.places fs (Files.interrupted fs done e) := by
  cases e with
  | makeDirectories route =>
    rw [Files.interrupted]
    split
    · exact alters_makeEach fs _
    · exact .refl _ _
  | append route bytes => exact alters_append fs route _
  | create route | sync route | rename source target => exact .refl _ _

end FileSystem

/-- **The frame of an effect.** Done wholly, in part or not at all, an effect alters no files
    but those at the places that it names, and takes no directory away. -/
theorem Disk.alters_perform (d : Disk) (e : Effect) :
    Alters e.places d.files (d.perform e).1.files := by
  rw [Device.perform]
  split
  · exact alters_interrupted d.files _ e
  · exact alters_done d.files e

end MetricDepot
