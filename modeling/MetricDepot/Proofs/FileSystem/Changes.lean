import MetricDepot.Proofs.FileSystem.Searches
/-!
# Changes — what an operation does to a volume

    Every operation first searches for a place and then does one thing: it gives a name to a
    new file or directory, moves a name, or replaces the bytes of a file.  For each there is
    one lemma, which says where the search has ended and what has been done there.

    Names and bytes are kept apart: to replace bytes changes no name, and to make or to move
    a name changes no bytes of files that were there.  So what can be read under a name
    depends on the way to it, on what stands there, and on the bytes of that file alone
    (`read_congr`).
-/

namespace MetricDepot

namespace Volume

open FileSystem Route

variable {v v' : Volume} {text : String} {p q origin : Path} {r : Route} {number : Nat} {bytes : Bytes}

-- ── Entries ─────────────────────────────────────────────────────────────────

/-- Where no directory is, the root is not. -/
theorem ne_root (h : v.find? p ≠ some .directory) : p ≠ [] := by
  rintro rfl
  exact h rfl

/-- Where nothing is, the root is not. -/
theorem ne_root_of_none (h : v.find? p = none) : p ≠ [] := by
  rintro rfl
  cases h

/-- The numbers of files are those below the next one. -/
theorem number_lt (h : v.find? p = some (.file number)) : number < v.next := by
  rw [find?] at h
  split at h
  · cases h
  · exact v.numbered p number h

/-- A new file stands at its place, and all else is as before. -/
theorem find?_newFile (v : Volume) (hp : p ≠ []) (q : Path) :
    (v.newFile p).find? q = if q = p then some (.file v.next) else v.find? q := by
  by_cases hroot : q = []
  · subst hroot
    rw [if_neg (Ne.symm hp)]
    rfl
  · rw [find?, if_neg hroot, find?, if_neg hroot]
    rfl

/-- So does a new directory. -/
theorem find?_newDirectory (v : Volume) (hp : p ≠ []) (q : Path) :
    (v.newDirectory p).find? q = if q = p then some .directory else v.find? q := by
  by_cases hroot : q = []
  · subst hroot
    rw [if_neg (Ne.symm hp)]
    rfl
  · rw [find?, if_neg hroot, find?, if_neg hroot]
    rfl

/-- A name that is moved stands at its new place and not at the old one. -/
theorem find?_move (v : Volume) (horigin : origin ≠ []) (hp : p ≠ []) (q : Path) :
    (v.move origin p).find? q = if q = p then v.find? origin else if q = origin then none else v.find? q := by
  by_cases hroot : q = []
  · subst hroot
    rw [if_neg (Ne.symm hp), if_neg (Ne.symm horigin)]
    rfl
  · rw [find?, if_neg hroot, find?, if_neg horigin, find?, if_neg hroot]
    rfl

/-- Bytes are those of a file, under whatever number. -/
theorem bytesAt?_of_file (h : v.find? p = some (.file number)) : v.bytesAt? p = some (v.contents number) := by
  rw [bytesAt?, h]

/-- Where nothing is there are no bytes. -/
theorem bytesAt?_of_none (h : v.find? p = none) : v.bytesAt? p = none := by
  rw [bytesAt?, h]

/-- A directory has no bytes. -/
theorem bytesAt?_of_directory (h : v.find? p = some .directory) : v.bytesAt? p = none := by
  rw [bytesAt?, h]

/-- The same stands at a place, and a file there has the same bytes. -/
theorem bytesAt?_congr (hfind : v'.find? p = v.find? p)
    (hcontents : ∀ number, v.find? p = some (.file number) → v'.contents number = v.contents number) :
    v'.bytesAt? p = v.bytesAt? p := by
  rw [bytesAt?, bytesAt?, hfind]
  cases hentry : v.find? p with
  | none => rfl
  | some entry =>
    cases entry with
    | file number => exact congrArg some (hcontents number hentry)
    | directory | link target => rfl

-- ── Operations ──────────────────────────────────────────────────────────────

/-- A text leads to a file where it leads to a name of the file without a slash behind it. -/
theorem file_eq_ok :
    v.file text = .ok number ↔
      ∃ p, (v.look true text).found = .ok (.entry p false) ∧ v.find? p = some (.file number) := by
  constructor
  · intro h
    obtain ⟨g, hfound, h⟩ := bind_eq_ok.mp h
    cases g with
    | directory path => cases h
    | entry p slash =>
      dsimp only at h
      split at h
      next hfile =>
        cases slash with
        | true => cases h
        | false =>
          obtain rfl := Except.ok.inj h
          exact ⟨p, hfound, hfile⟩
      · cases h
      · cases h
      · cases h
  · rintro ⟨p, hfound, hfile⟩
    refine bind_eq_ok.mpr ⟨_, hfound, ?_⟩
    dsimp only
    rw [hfile]
    rfl

/-- A name may be put where no directory is. -/
theorem slot_eq_ok : v.slot text = .ok p ↔ v.place? text = some p ∧ v.find? p ≠ some .directory := by
  rw [place?_eq_some]
  constructor
  · intro h
    obtain ⟨g, hfound, h⟩ := bind_eq_ok.mp h
    cases g with
    | directory path => cases h
    | entry path slash =>
      dsimp only at h
      split at h
      · cases h
      next hfree =>
        cases slash with
        | true => exact absurd (Or.inl rfl) hfree
        | false =>
          obtain rfl := Except.ok.inj h
          exact ⟨hfound, fun hdirectory => hfree (Or.inr hdirectory)⟩
  · rintro ⟨hfound, hfree⟩
    refine bind_eq_ok.mpr ⟨_, hfound, ?_⟩
    dsimp only
    rw [if_neg]
    · rfl
    · rintro (hslash | hdirectory)
      · cases hslash
      · exact hfree hdirectory

/-- What is read are the bytes of the file that is there. -/
theorem read_eq_ok :
    v.read text = .ok bytes ↔ ∃ p, (v.look true text).found = .ok (.entry p false) ∧ v.bytesAt? p = some bytes := by
  rw [read, map_eq_ok]
  constructor
  · rintro ⟨number, hfile, rfl⟩
    obtain ⟨p, hfound, hentry⟩ := file_eq_ok.mp hfile
    exact ⟨p, hfound, bytesAt?_of_file hentry⟩
  · rintro ⟨p, hfound, hbytes⟩
    rw [bytesAt?] at hbytes
    split at hbytes
    next number hentry => exact ⟨number, file_eq_ok.mpr ⟨p, hfound, hentry⟩, Option.some.inj hbytes⟩
    next => cases hbytes

/-- A file is read alike where the search ends at the same place and the same stands there. -/
theorem read_congr (hlook : v'.look true text = v.look true text)
    (h : ∀ p ∈ (v.look true text).visited, v'.find? p = v.find? p ∧ v'.bytesAt? p = v.bytesAt? p) :
    v'.read text = v.read text := by
  rw [read, read, file, file, hlook]
  cases hfound : (v.look true text).found with
  | error e => rfl
  | ok g =>
    cases g with
    | directory path => rfl
    | entry p slash =>
      obtain ⟨r, hr⟩ := ofText_of_found hfound
      obtain ⟨hfind, hbytes⟩ := h p ((seeks_look v true hr).last hfound)
      simp only [bind, Except.bind, hfind]
      cases hentry : v.find? p with
      | none => rfl
      | some entry =>
        cases entry with
        | directory | link target => rfl
        | file number =>
          rw [bytesAt?_of_file hentry, bytesAt?_of_file (hfind.trans hentry), Option.some.injEq] at hbytes
          cases slash with
          | true => rfl
          | false => exact congrArg Except.ok hbytes

/-- Who creates a file empties one that is there, or makes one. -/
theorem create_eq_ok (h : v.create text = .ok v') :
    ∃ p, (v.look true text).found = .ok (.entry p false) ∧
      ((∃ number, v.find? p = some (.file number) ∧ v' = v.overwrite number []) ∨
        v.find? p = none ∧ v' = v.newFile p) := by
  obtain ⟨g, hfound, h⟩ := bind_eq_ok.mp h
  cases g with
  | directory path => cases h
  | entry p slash =>
    cases slash with
    | true => cases h
    | false =>
      refine ⟨p, hfound, ?_⟩
      dsimp only at h
      rw [if_neg Bool.false_ne_true] at h
      split at h
      next number hfile => exact Or.inl ⟨number, hfile, (Except.ok.inj h).symm⟩
      · cases h
      · cases h
      next hnone => exact Or.inr ⟨hnone, (Except.ok.inj h).symm⟩

/-- What is appended stands behind the bytes of the file. -/
theorem append_eq_ok (h : v.append text bytes = .ok v') :
    ∃ p number, (v.look true text).found = .ok (.entry p false) ∧ v.find? p = some (.file number) ∧
      v' = v.overwrite number (v.contents number ++ bytes) := by
  obtain ⟨number, hfile, rfl⟩ := map_eq_ok.mp h
  obtain ⟨p, hfound, hentry⟩ := file_eq_ok.mp hfile
  exact ⟨p, number, hfound, hentry, rfl⟩

/-- A name is moved to a place where no directory is, unless it is there already under another
    name of the file. -/
theorem rename_eq_ok {source target : String} (h : v.rename source target = .ok v') :
    ∃ origin p moved, v.place? source = some origin ∧ v.find? origin = some moved ∧
      v.place? target = some p ∧ v.find? p ≠ some .directory ∧
      (v' = v.move origin p ∨ ∃ number, moved = .file number ∧ v.find? p = some (.file number) ∧ v' = v) := by
  obtain ⟨g, hfound, h⟩ := bind_eq_ok.mp h
  cases g with
  | directory path => cases h
  | entry origin slash =>
    dsimp only at h
    split at h
    · cases h
    · cases h
    next moved _ hmoved =>
      obtain ⟨hslash, h⟩ := guard_eq_ok.mp h
      obtain rfl := Bool.eq_false_iff.mpr hslash
      obtain ⟨p, hslot, h⟩ := bind_eq_ok.mp h
      obtain ⟨hplace, hfree⟩ := slot_eq_ok.mp hslot
      refine ⟨origin, p, moved, place?_eq_some.mpr hfound, hmoved, hplace, hfree, ?_⟩
      split at h
      next hthere _ _ _ =>
        split at h
        next hsame =>
          obtain rfl := hsame
          exact Or.inr ⟨_, rfl, hthere, (Except.ok.inj h).symm⟩
        next => exact Or.inl (Except.ok.inj h).symm
      next => exact Or.inl (Except.ok.inj h).symm

/-- Where a file is moved to. -/
theorem rename_of_file {source target : String} (hfound : (v.look false source).found = .ok (.entry origin false))
    (hfile : v.find? origin = some (.file number)) :
    v.rename source target =
      (v.slot target).map fun p => if v.find? p = some (.file number) then v else v.move origin p := by
  rw [rename, bind_eq_of_ok hfound rfl]
  dsimp only
  rw [hfile]
  cases v.slot target with
  | error e => rfl
  | ok p =>
    simp only [bind, Except.bind, Except.map]
    cases v.find? p with
    | none => rfl
    | some there =>
      cases there with
      | directory | link target => rfl
      | file other =>
        simp only [Option.some.injEq, Entry.file.injEq, eq_comm (a := number)]
        rfl

/-- What a directory that is made changes: nothing, or it was missing at its place. -/
theorem makeDirectory_eq_ok (h : v.makeDirectory r = .ok v') :
    v' = v ∨ ∃ p slash, (v.seek false linkLimit [] r).found = .ok (.entry p slash) ∧ v.find? p = none ∧
      v' = v.newDirectory p := by
  obtain ⟨g, hfound, h⟩ := bind_eq_ok.mp h
  cases g with
  | directory path => exact Or.inl (Except.ok.inj h).symm
  | entry p slash =>
    dsimp only at h
    split at h
    next => exact Or.inl (Except.ok.inj h).symm
    next => cases h
    next =>
      split at h
      next => exact Or.inl (Except.ok.inj h).symm
      next => cases h
    next hnone => exact Or.inr ⟨p, slash, hfound, hnone, (Except.ok.inj h).symm⟩

end Volume

end MetricDepot
