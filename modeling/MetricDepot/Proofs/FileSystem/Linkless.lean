import Mathlib.Data.List.Basic
import MetricDepot.Proofs.FileSystem.Changes
import MetricDepot.Proofs.FileSystem.Places
/-!
# Linkless — volumes without links

    A volume in which there are no links and in which every file has one name is a picture of
    a `FileSystem`: the same stands everywhere.  A search in it is a walk, so an operation ends
    alike in both, and leaves a picture of what it leaves of the other.

    From operations this goes over to effects and to what a device does
    (`Simulates.performAll`), whatever the kinds of the file systems are.
-/

namespace MetricDepot

open FileSystem Route

-- ── Two kinds of file systems ───────────────────────────────────────────────

section Kinds

variable {σ τ : Type} {R : σ → τ → Prop} {files : σ} {other : τ}

/-- Operations agree that fail for the same reason or leave related file systems. -/
inductive Agree (R : σ → τ → Prop) : Except IoError σ → Except IoError τ → Prop where
  | ok {files : σ} {other : τ} (h : R files other) : Agree R (.ok files) (.ok other)
  | error (e : IoError) : Agree R (.error e) (.error e)

/-- Two file systems with what has come of an effect. -/
def Ended (R : σ → τ → Prop) (ended : σ × Except IoError Unit) (other : τ × Except IoError Unit) : Prop :=
  R ended.1 other.1 ∧ ended.2 = other.2

/-- Operations that agree have the same outcome. -/
theorem Agree.ended {result : Except IoError σ} {result' : Except IoError τ} (h : Agree R result result')
    (hfiles : R files other) : Ended R (Files.outcome files result) (Files.outcome other result') := by
  cases h with
  | ok h => exact ⟨h, rfl⟩
  | error e => exact ⟨hfiles, rfl⟩

/-- Related file systems are read alike, and what is done to both leaves them related. -/
structure Simulates [Files σ] [Files τ] (R : σ → τ → Prop) : Prop where
  read : ∀ {files other}, R files other → ∀ text, Files.read files text = Files.read other text
  makeDirectory : ∀ {files other}, R files other → ∀ r,
    Agree R (Files.makeDirectory files r) (Files.makeDirectory other r)
  create : ∀ {files other}, R files other → ∀ text, Agree R (Files.create files text) (Files.create other text)
  append : ∀ {files other}, R files other → ∀ text bytes,
    Agree R (Files.append files text bytes) (Files.append other text bytes)
  rename : ∀ {files other}, R files other → ∀ source target,
    Agree R (Files.rename files source target) (Files.rename other source target)

namespace Simulates

variable [Files σ] [Files τ]

/-- Directories are made alike, up to the first that cannot be made. -/
theorem makeEach (hs : Simulates R) (h : R files other) (routes : List Route) :
    Ended R (Files.makeEach files routes) (Files.makeEach other routes) := by
  induction routes generalizing files other with
  | nil => exact ⟨h, rfl⟩
  | cons r routes ih =>
    have hmade := hs.makeDirectory h r
    rw [Files.makeEach, Files.makeEach]
    generalize Files.makeDirectory files r = result at hmade ⊢
    generalize Files.makeDirectory other r = result' at hmade ⊢
    cases hmade with
    | ok hmade => exact ih hmade
    | error e => exact ⟨h, rfl⟩

/-- So are a directory and those on the way to it. -/
theorem makeDirectories (hs : Simulates R) (h : R files other) (text : String) :
    Ended R (Files.makeDirectories files text) (Files.makeDirectories other text) := by
  rw [Files.makeDirectories, Files.makeDirectories]
  cases ofText text with
  | ok r => exact hs.makeEach h _
  | error e => exact ⟨h, rfl⟩

/-- Every effect is done alike. -/
theorem perform (hs : Simulates R) (h : R files other) (e : Effect) :
    Ended R (Files.perform files e) (Files.perform other e) := by
  cases e with
  | makeDirectories route => exact hs.makeDirectories h route
  | create route => exact (hs.create h route).ended h
  | append route bytes => exact (hs.append h route bytes).ended h
  | sync route => exact ⟨h, rfl⟩
  | rename source target => exact (hs.rename h source target).ended h

/-- What is left of an effect that is interrupted is alike. -/
theorem interrupted (hs : Simulates R) (h : R files other) (done : Nat) (e : Effect) :
    R (Files.interrupted files done e) (Files.interrupted other done e) := by
  cases e with
  | makeDirectories route =>
    rw [Files.interrupted, Files.interrupted]
    cases ofText route with
    | ok r => exact (hs.makeEach h _).1
    | error e => exact h
  | append route bytes => exact ((hs.append h route _).ended h).1
  | create route | sync route | rename source target => exact h

/-- What becomes of an effect depends on the device only by what it holds. -/
theorem device (hs : Simulates R) {d : Device σ} {d' : Device τ} (h : R d.files d'.files)
    (hfaults : d.faults = d'.faults) (e : Effect) :
    (R (d.perform e).1.files (d'.perform e).1.files ∧ (d.perform e).1.faults = (d'.perform e).1.faults) ∧
      (d.perform e).2 = (d'.perform e).2 := by
  obtain ⟨files, faults⟩ := d
  obtain ⟨other, faults'⟩ := d'
  obtain rfl : faults = faults' := hfaults
  have hended := hs.perform h e
  rw [Device.perform, Device.perform]
  cases faults with
  | nil => exact ⟨⟨hended.1, rfl⟩, hended.2⟩
  | cons fault later =>
    cases fault with
    | none => exact ⟨⟨hended.1, rfl⟩, hended.2⟩
    | some done => exact ⟨⟨hs.interrupted h done e, rfl⟩, rfl⟩

/-- **Effects end alike on devices that hold related file systems and fail alike.** -/
theorem performAll (hs : Simulates R) (d : Device σ) (d' : Device τ) (h : R d.files d'.files)
    (hfaults : d.faults = d'.faults) (effects : List Effect) :
    R (d.performAll effects).1.files (d'.performAll effects).1.files ∧
      (d.performAll effects).2 = (d'.performAll effects).2 := by
  induction effects generalizing d d' with
  | nil => exact ⟨h, rfl⟩
  | cons e effects ih =>
    obtain ⟨⟨hfiles, hlater⟩, hdone⟩ := hs.device h hfaults e
    rw [Device.performAll, Device.performAll]
    generalize d.perform e = ended at hfiles hlater hdone ⊢
    generalize d'.perform e = ended' at hfiles hlater hdone ⊢
    obtain ⟨later, done⟩ := ended
    obtain ⟨later', done'⟩ := ended'
    obtain rfl : done = done' := hdone
    cases done with
    | ok _ => exact ih later later' hfiles hlater
    | error reason => exact ⟨hfiles, rfl⟩

end Simulates

end Kinds

-- ── Pictures ────────────────────────────────────────────────────────────────

/-- The same stands at a place of both, and it is no link. -/
inductive Depicts (contents : Nat → Bytes) : Option Entry → Option Node → Prop where
  | file (number : Nat) : Depicts contents (some (.file number)) (some (.file (contents number)))
  | directory : Depicts contents (some .directory) (some .directory)
  | nothing : Depicts contents none none

/-- A file with the right bytes. -/
theorem Depicts.of_contents {contents : Nat → Bytes} {number : Nat} {bytes : Bytes} (h : contents number = bytes) :
    Depicts contents (some (.file number)) (some (.file bytes)) := by
  rw [← h]
  exact .file number

/-- What stands at a place is the same while a file there keeps its bytes. -/
theorem Depicts.congr {contents contents' : Nat → Bytes} {entry : Option Entry} {node : Option Node}
    (h : Depicts contents entry node)
    (hsame : ∀ number, entry = some (.file number) → contents' number = contents number) :
    Depicts contents' entry node := by
  cases h with
  | file number => exact .of_contents (hsame number rfl)
  | directory => exact .directory
  | nothing => exact .nothing

/-- The volume has no links, its files have one name, and it holds the same. -/
structure Pictures (v : Volume) (fs : FileSystem) : Prop where
  depicts : ∀ p, Depicts v.contents (v.find? p) (fs.find? p)
  single : ∀ p q number, v.find? p = some (.file number) → v.find? q = some (.file number) → p = q

namespace Pictures

open Volume

variable {v : Volume} {fs : FileSystem} {follow : Bool} {links number : Nat} {here p q : Path} {name text : String}
  {way more : List Step} {ending : Ending} {bytes : Bytes}

/-- What stands at a place is a file or a directory, in both, or nothing. -/
theorem stands (h : Pictures v fs) (p : Path) :
    (∃ number, v.find? p = some (.file number) ∧ fs.find? p = some (.file (v.contents number))) ∨
      (v.find? p = some .directory ∧ fs.find? p = some .directory) ∨ v.find? p = none ∧ fs.find? p = none := by
  have hdepicts := h.depicts p
  generalize v.find? p = entry at hdepicts ⊢
  generalize fs.find? p = node at hdepicts ⊢
  cases hdepicts with
  | file number => exact Or.inl ⟨number, rfl, rfl⟩
  | directory => exact Or.inr (Or.inl ⟨rfl, rfl⟩)
  | nothing => exact Or.inr (Or.inr ⟨rfl, rfl⟩)

/-- There is no link. -/
theorem isLink (h : Pictures v fs) (p : Path) : v.isLink p = false := by
  rw [Volume.isLink]
  rcases h.stands p with ⟨number, hv, -⟩ | ⟨hv, -⟩ | ⟨hv, -⟩
  all_goals rw [hv]

-- ── Searches are walks ──────────────────────────────────────────────────────

/-- A walk goes on from where its beginning has led. -/
theorem walk_append (here : Path) (steps more : List Step) :
    fs.walk here (steps ++ more) = fs.walk here steps >>= fun there => fs.walk there more := by
  induction steps generalizing here with
  | nil => rfl
  | cons step steps ih =>
    cases step with
    | up => exact ih here.dropLast
    | into name =>
      rw [List.cons_append, walk, walk]
      split
      · rfl
      · split
        · exact ih _
        · rfl
        · rfl

/-- A search walks the way that it does not end with. -/
theorem seek_append (h : Pictures v fs) (hmore : more ≠ []) :
    (v.seek follow links here ⟨way ++ more, ending⟩).found =
      fs.walk here way >>= fun there => (v.seek follow links there ⟨more, ending⟩).found := by
  induction way generalizing here with
  | nil => rfl
  | cons step way ih =>
    cases step with
    | up =>
      rw [List.cons_append, seek_up, ih]
      rfl
    | into name =>
      rw [List.cons_append, walk]
      by_cases hlong : nameLimit < name.utf8ByteSize
      · rw [(Seeks.long hlong).eq, if_pos hlong]
        rfl
      · rw [seek_into hlong, if_neg hlong, isEnd_of_ne_nil (List.append_ne_nil_of_right_ne_nil way hmore)]
        rcases h.stands (here ++ [name]) with ⟨number, hv, hfs⟩ | ⟨hv, hfs⟩ | ⟨hv, hfs⟩
        · rw [hv, hfs]
          rfl
        · rw [hv, hfs]
          exact ih
        · rw [hv, hfs]
          rfl

/-- What a search finds at its last step. -/
theorem seek_name (h : Pictures v fs) :
    (v.seek follow links here ⟨[.into name], ending⟩).found =
      if ending = .fullStop then (fs.walk here [.into name]).map .directory
      else if nameLimit < name.utf8ByteSize then .error .nameTooLong
      else .ok (.entry (here ++ [name]) (ending == .slash)) := by
  rw [walk]
  by_cases hlong : nameLimit < name.utf8ByteSize
  · rw [(Seeks.long hlong).eq, if_pos hlong, if_pos hlong]
    split
    · rfl
    · rfl
  · rw [seek_into hlong, if_neg hlong, if_neg hlong, isEnd, h.isLink, Bool.and_false, Bool.not_false,
      Bool.and_true, List.isEmpty_nil, Bool.true_and]
    by_cases hstop : ending = .fullStop
    · subst hstop
      rcases h.stands (here ++ [name]) with ⟨number, hv, hfs⟩ | ⟨hv, hfs⟩ | ⟨hv, hfs⟩
      · rw [hv, hfs]
        rfl
      · rw [hv, hfs]
        show (v.seek follow links (here ++ [name]) ⟨[], .fullStop⟩).found = .ok (.directory (here ++ [name]))
        rw [Seeks.done.eq]
      · rw [hv, hfs]
        rfl
    · rw [if_neg hstop, if_pos (bne_iff_ne.mpr hstop)]
      rfl

/-- A search finds what a route leads to. -/
theorem seek (h : Pictures v fs) (follow : Bool) (links : Nat) (r : Route) :
    (v.seek follow links [] r).found = fs.goal r := by
  obtain ⟨steps, ending⟩ := r
  rcases List.eq_nil_or_concat steps with rfl | ⟨way, last, hsteps⟩
  · rw [Seeks.done.eq]
    cases ending with
    | nothing | slash | fullStop => rfl
  · rw [List.concat_eq_append] at hsteps
    subst hsteps
    rw [h.seek_append (List.cons_ne_nil _ _), goal, List.getLast?_concat, List.dropLast_concat, walk_append]
    simp only [FileSystem.entry]
    cases fs.walk [] way with
    | error e =>
      cases last with
      | up => cases ending <;> rfl
      | into name => cases ending <;> rfl
    | ok there =>
      cases last with
      | up =>
        show (v.seek follow links there ⟨[.up], ending⟩).found = _
        rw [(Seeks.up .done).eq]
        cases ending <;> rfl
      | into name =>
        show (v.seek follow links there ⟨[.into name], ending⟩).found = _
        rw [h.seek_name]
        by_cases hlong : nameLimit < name.utf8ByteSize
        · cases ending with
          | nothing | slash =>
            simp only [bind, Except.bind, if_pos hlong]
            rfl
          | fullStop => rfl
        · cases ending with
          | nothing | slash =>
            simp only [bind, Except.bind, if_neg hlong]
            rfl
          | fullStop => rfl

/-- A text leads to the same in both. -/
theorem look (h : Pictures v fs) (follow : Bool) (text : String) : (v.look follow text).found = fs.look text := by
  rw [Volume.look, FileSystem.look]
  cases ofText text with
  | ok r => exact h.seek follow linkLimit r
  | error e => rfl

-- ── Operations agree ────────────────────────────────────────────────────────

/-- A text leads to the same file in both, or to none for the same reason. -/
theorem file (h : Pictures v fs) (text : String) :
    (∃ e, v.file text = .error e ∧ fs.file text = .error e) ∨
      ∃ p number, v.file text = .ok number ∧ v.find? p = some (.file number) ∧
        fs.file text = .ok (p, v.contents number) := by
  rw [Volume.file, FileSystem.file, h.look]
  cases fs.look text with
  | error e => exact Or.inl ⟨e, rfl, rfl⟩
  | ok g =>
    cases g with
    | directory path => exact Or.inl ⟨_, rfl, rfl⟩
    | entry p slash =>
      simp only [bind, Except.bind]
      rcases h.stands p with ⟨number, hv, hfs⟩ | ⟨hv, hfs⟩ | ⟨hv, hfs⟩
      · rw [hv, hfs]
        cases slash with
        | true => exact Or.inl ⟨_, rfl, rfl⟩
        | false => exact Or.inr ⟨p, number, rfl, hv, rfl⟩
      · rw [hv, hfs]
        exact Or.inl ⟨_, rfl, rfl⟩
      · rw [hv, hfs]
        exact Or.inl ⟨_, rfl, rfl⟩

/-- A name may be put at the same place in both. -/
theorem slot (h : Pictures v fs) (text : String) : v.slot text = fs.slot text := by
  rw [Volume.slot, FileSystem.slot, h.look]
  cases fs.look text with
  | error e => rfl
  | ok g =>
    cases g with
    | directory path => rfl
    | entry p slash =>
      have hdirectory : v.find? p = some .directory ↔ fs.find? p = some .directory := by
        rcases h.stands p with ⟨number, hv, hfs⟩ | ⟨hv, hfs⟩ | ⟨hv, hfs⟩
        all_goals simp only [hv, hfs, Option.some.injEq, reduceCtorEq]
      simp only [bind, Except.bind, hdirectory]

/-- A file is read alike. -/
theorem read (h : Pictures v fs) (text : String) : v.read text = fs.read text := by
  rw [Volume.read, FileSystem.read]
  rcases h.file text with ⟨e, hv, hfs⟩ | ⟨p, number, hv, -, hfs⟩
  · rw [hv, hfs]
    rfl
  · rw [hv, hfs]
    rfl

/-- What stands at a place need not be told twice. -/
theorem congr {fs' : FileSystem} (h : Pictures v fs) (hsame : ∀ p, fs'.find? p = fs.find? p) : Pictures v fs' := by
  refine ⟨fun p => ?_, h.single⟩
  rw [hsame]
  exact h.depicts p

/-- To replace the bytes of a file alters the one place at which the file is. -/
theorem overwrite (h : Pictures v fs) (hp : v.find? p = some (.file number)) (bytes : Bytes) :
    Pictures (v.overwrite number bytes) (fs.put p (.file bytes)) := by
  have hroot : p ≠ [] := by
    rintro rfl
    cases hp
  refine ⟨fun q => ?_, h.single⟩
  rw [find?_put fs hroot]
  show Depicts _ (v.find? q) _
  by_cases hq : q = p
  · rw [if_pos hq, hq, hp]
    exact .of_contents (if_pos rfl)
  · rw [if_neg hq]
    refine (h.depicts q).congr fun other hother => if_neg ?_
    rintro rfl
    exact hq (h.single q p other hother hp)

/-- A new file has a number that no other has. -/
theorem newFile (h : Pictures v fs) (hp : v.find? p = none) : Pictures (v.newFile p) (fs.put p (.file [])) := by
  have hroot := ne_root_of_none hp
  have hnew : ∀ q number, v.find? q = some (.file number) → number ≠ v.next := by
    rintro q number hq rfl
    exact absurd (number_lt hq) (Nat.lt_irrefl _)
  constructor
  · intro q
    rw [find?_put fs hroot, find?_newFile v hroot]
    by_cases hq : q = p
    · rw [if_pos hq, if_pos hq]
      exact .of_contents (if_pos rfl)
    · rw [if_neg hq, if_neg hq]
      exact (h.depicts q).congr fun other hother => if_neg (hnew q other hother)
  · intro q r number hq hr
    rw [find?_newFile v hroot] at hq hr
    split at hq
    next hqp =>
      obtain rfl := Entry.file.inj (Option.some.inj hq)
      split at hr
      next hrp => exact hqp.trans hrp.symm
      next => exact absurd rfl (hnew r _ hr)
    next =>
      split at hr
      next =>
        obtain rfl := Entry.file.inj (Option.some.inj hr)
        exact absurd rfl (hnew q _ hq)
      next => exact h.single q r number hq hr

/-- A new directory has no number. -/
theorem newDirectory (h : Pictures v fs) (hp : v.find? p = none) :
    Pictures (v.newDirectory p) (fs.put p .directory) := by
  have hroot := ne_root_of_none hp
  constructor
  · intro q
    rw [find?_put fs hroot, find?_newDirectory v hroot]
    by_cases hq : q = p
    · rw [if_pos hq, if_pos hq]
      exact .directory
    · rw [if_neg hq, if_neg hq]
      exact h.depicts q
  · intro q r number hq hr
    rw [find?_newDirectory v hroot] at hq hr
    split at hq
    · cases hq
    · split at hr
      · cases hr
      · exact h.single q r number hq hr

/-- To move the one name of a file is to move the file. -/
theorem move (h : Pictures v fs) (horigin : v.find? q = some (.file number)) (hp : p ≠ []) :
    Pictures (v.move q p) ((fs.remove q).put p (.file (v.contents number))) := by
  have hroot : q ≠ [] := by
    rintro rfl
    cases horigin
  constructor
  · intro r
    rw [find?_put _ hp, find?_remove fs hroot, find?_move v hroot hp]
    by_cases hr : r = p
    · rw [if_pos hr, if_pos hr, horigin]
      exact .file number
    · rw [if_neg hr, if_neg hr]
      by_cases hrq : r = q
      · rw [if_pos hrq, if_pos hrq]
        exact .nothing
      · rw [if_neg hrq, if_neg hrq]
        exact h.depicts r
  · intro r s other hr hs
    rw [find?_move v hroot hp] at hr hs
    -- the name that was moved is the only one of its file
    have hmoved : ∀ r, (if r = p then v.find? q else if r = q then none else v.find? r) = some (.file other) →
        r = p ∧ number = other ∨ r ≠ q ∧ v.find? r = some (.file other) := by
      intro r hr
      split at hr
      next heq =>
        rw [horigin] at hr
        exact Or.inl ⟨heq, Entry.file.inj (Option.some.inj hr)⟩
      next =>
        split at hr
        · cases hr
        next hne => exact Or.inr ⟨hne, hr⟩
    rcases hmoved r hr with ⟨rfl, rfl⟩ | ⟨hrq, hrfile⟩
    · rcases hmoved s hs with ⟨rfl, -⟩ | ⟨hsq, hsfile⟩
      · rfl
      · exact absurd (h.single s q _ hsfile horigin) hsq
    · rcases hmoved s hs with ⟨rfl, rfl⟩ | ⟨-, hsfile⟩
      · exact absurd (h.single r q _ hrfile horigin) hrq
      · exact h.single r s other hrfile hsfile

/-- What is created in both is created alike. -/
theorem create (h : Pictures v fs) (text : String) : Agree Pictures (v.create text) (fs.create text) := by
  rw [Volume.create, FileSystem.create, FileSystem.slot, h.look]
  cases fs.look text with
  | error e => exact .error e
  | ok g =>
    cases g with
    | directory path => exact .error _
    | entry p slash =>
      cases slash with
      | true => exact .error _
      | false =>
        simp only [bind, Except.bind]
        rcases h.stands p with ⟨number, hv, hfs⟩ | ⟨hv, hfs⟩ | ⟨hv, hfs⟩
        · rw [hv, hfs]
          exact .ok (h.overwrite hv [])
        · rw [hv, hfs]
          exact .error _
        · rw [hv, hfs]
          exact .ok (h.newFile hv)

/-- What is appended in both is appended alike. -/
theorem append (h : Pictures v fs) (text : String) (bytes : Bytes) :
    Agree Pictures (v.append text bytes) (fs.append text bytes) := by
  rw [Volume.append, FileSystem.append]
  rcases h.file text with ⟨e, hv, hfs⟩ | ⟨p, number, hv, hp, hfs⟩
  · rw [hv, hfs]
    exact .error e
  · rw [hv, hfs]
    exact .ok (h.overwrite hp _)

/-- A directory is made in both or in none. -/
theorem makeDirectory (h : Pictures v fs) (r : Route) : Agree Pictures (v.makeDirectory r) (fs.makeDirectory r) := by
  rw [Volume.makeDirectory, FileSystem.makeDirectory, h.seek]
  cases fs.goal r with
  | error e => exact .error e
  | ok g =>
    cases g with
    | directory path => exact .ok h
    | entry p slash =>
      simp only [bind, Except.bind]
      rcases h.stands p with ⟨number, hv, hfs⟩ | ⟨hv, hfs⟩ | ⟨hv, hfs⟩
      · rw [hv, hfs]
        exact .error _
      · rw [hv, hfs]
        exact .ok h
      · rw [hv, hfs]
        exact .ok (h.newDirectory hv)

/-- What is moved in both is moved alike. -/
theorem rename (h : Pictures v fs) (source target : String) :
    Agree Pictures (v.rename source target) (fs.rename source target) := by
  rw [FileSystem.rename, FileSystem.file]
  cases hlook : fs.look source with
  | error e =>
    rw [Volume.rename, h.look, hlook]
    exact .error e
  | ok g =>
    cases g with
    | directory path =>
      rw [Volume.rename, h.look, hlook]
      exact .error _
    | entry origin slash =>
      rcases h.stands origin with ⟨number, hv, hfs⟩ | ⟨hv, hfs⟩ | ⟨hv, hfs⟩
      · cases slash with
        | true =>
          rw [Volume.rename, h.look, hlook]
          simp only [bind, Except.bind, hv, hfs]
          exact .error _
        | false =>
          simp only [bind, Except.bind, hfs]
          rw [rename_of_file ((h.look false source).trans hlook) hv, h.slot]
          cases hslot : fs.slot target with
          | error e => exact .error e
          | ok p =>
            have hfree := (Volume.slot_eq_ok.mp ((h.slot target).trans hslot)).2
            have hroot := Volume.ne_root hfree
            refine .ok ?_
            dsimp only
            split
            next hthere =>
              -- the file is where it is to be moved to
              obtain rfl := h.single origin p _ hv hthere
              refine h.congr fun q => ?_
              rw [find?_put _ hroot, find?_remove fs hroot]
              by_cases hq : q = origin
              · rw [if_pos hq, hq, hfs]
              · rw [if_neg hq, if_neg hq]
            next => exact h.move hv hroot
      · rw [Volume.rename, h.look, hlook]
        simp only [bind, Except.bind, hv, hfs]
        exact .error _
      · rw [Volume.rename, h.look, hlook]
        simp only [bind, Except.bind, hv, hfs]
        exact .error _

end Pictures

/-- **Without links it makes no difference which of the two one takes.** -/
theorem simulates_pictures : Simulates Pictures where
  read h := h.read
  makeDirectory h := h.makeDirectory
  create h := h.create
  append h := h.append
  rename h := h.rename

-- ── Every file system has a picture ─────────────────────────────────────────

namespace FileSystem

variable {fs : FileSystem} {p : Path}

/-- The paths that are told of. -/
def paths (fs : FileSystem) : List Path := fs.nodes.map (·.1)

/-- What is found has been told of. -/
theorem mem_paths {node : Node} (h : fs.nodes.lookup p = some node) : p ∈ fs.paths := by
  obtain ⟨before, behind, hnodes, -⟩ := List.lookup_eq_some_iff.mp h
  exact List.mem_map.mpr ⟨(p, node), hnodes ▸ List.mem_append_cons_self, rfl⟩

/-- The volume in which every file has the number of its path. -/
def volume (fs : FileSystem) : Volume where
  entries p :=
    match fs.nodes.lookup p with
    | some (.file _) => some (.file (fs.paths.idxOf p))
    | some .directory => some .directory
    | none => none
  contents number := ((fs.paths[number]?).bind fs.bytesAt?).getD []
  next := fs.paths.length
  numbered p number h := by
    split at h
    next hlookup =>
      obtain rfl := Entry.file.inj (Option.some.inj h)
      exact List.idxOf_lt_length_of_mem (mem_paths hlookup)
    · cases h
    · cases h

/-- The number of a file is that of its path. -/
theorem path_of_number {number : Nat} (h : fs.volume.find? p = some (.file number)) :
    fs.paths[number]? = some p := by
  rw [Volume.find?] at h
  split at h
  · cases h
  · dsimp only [volume] at h
    split at h
    next hlookup =>
      obtain rfl := Entry.file.inj (Option.some.inj h)
      exact List.getElem?_idxOf (mem_paths hlookup)
    · cases h
    · cases h

/-- **Every file system without links has a picture.** -/
theorem pictures_volume (fs : FileSystem) : Pictures fs.volume fs := by
  constructor
  · intro p
    by_cases hroot : p = []
    · subst hroot
      exact .directory
    · rw [Volume.find?, if_neg hroot, find?, if_neg hroot]
      cases hlookup : fs.nodes.lookup p with
      | none =>
        simp only [volume, hlookup]
        exact .nothing
      | some node =>
        cases node with
        | directory =>
          simp only [volume, hlookup]
          exact .directory
        | file bytes =>
          have hbytes : fs.bytesAt? p = some bytes := by
            rw [bytesAt?_eq_some, find?, if_neg hroot, hlookup]
          have hcontents : fs.volume.contents (fs.paths.idxOf p) = bytes := by
            simp only [volume, List.getElem?_idxOf (mem_paths hlookup), Option.bind_some, hbytes, Option.getD_some]
          have hentry : fs.volume.entries p = some (.file (fs.paths.idxOf p)) := by
            simp only [volume, hlookup]
          rw [hentry]
          exact .of_contents hcontents
  · intro p q number hp hq
    exact Option.some.inj ((path_of_number hp).symm.trans (path_of_number hq))

end FileSystem

end MetricDepot
