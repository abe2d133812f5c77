import MetricDepot.Proofs.Checkpoint.Staging
/-!
# Beside — a staging file where there are links

    The staging file stands beside the file: the way to both is the same, and only the names
    at its end differ.  Whoever gets to the staging file can take every step to the file but
    the last.

    With links this does not keep the two apart.  The staging file may be another name of the
    file, or a link to it or to any third file, and the file may be a link that leads by way
    of the staging file.  `Unlinked` excludes just this.  Then the file is never looked for
    at the staging file (`Unlinked.not_visited`), and what is done to the staging file is done
    to no other file (`Beside`).
-/

namespace MetricDepot

namespace Checkpoint

open FileSystem Route Volume

variable {file : String} {v made cur after : Volume} {p q : Path} {trail : List Path} {number : Nat}
  {bytes content : Bytes}

-- ── Two names at the end of one way ─────────────────────────────────────────

/-- A text that is the name of a place ends with the name. -/
theorem steps_of_place? (h : v.place? file = some p) :
    ∃ way name, stepsOf file = way ++ [.into name] ∧ endingOf file = .nothing := by
  obtain ⟨trail, hnames⟩ := names_of_place? h
  cases hnames with
  | @intro way name left there trail hroute hwalk hshort =>
    obtain ⟨hsteps, hending⟩ := Route.mk.inj (eq_of_ofText hroute)
    exact ⟨way, name, hsteps.symm, hending.symm⟩

/-- Whoever gets to the staging file gets to the directory of the file, and has seen there what
    a search for the file sees but for the file itself. -/
theorem beside_of_names (h : Names v (stagingOf file) q trail) :
    (∃ p, Names v file p trail ∧ p ≠ q) ∨ v.place? file = none ∧ (v.look true file).visited ⊆ trail := by
  cases h with
  | @intro way name left there trail hroute hwalk hshort =>
    have hfile := ofText_of_staging hroute
    obtain ⟨way', last, hname, hsteps⟩ := steps_of_staging hroute
    obtain ⟨rfl, hlast⟩ := List.append_inj' (Route.mk.inj hname).1 rfl
    obtain rfl := Step.into.inj (List.cons.inj hlast).1
    rcases hsteps with ⟨hsteps, hending⟩ | hsteps | ⟨hsteps, hending⟩
    · -- the text of the file ends with a slash or a full stop behind the way
      refine Or.inr ⟨?_, ?_⟩
      · refine Option.eq_none_iff_forall_ne_some.mpr fun p hplace => ?_
        obtain ⟨_, _, -, hnothing⟩ := steps_of_place? hplace
        exact hending hnothing
      · rw [hsteps] at hfile
        exact hwalk.visited (seeks_look v true hfile)
    · -- the text of the file steps back at the end of the way
      refine Or.inr ⟨?_, ?_⟩
      · refine Option.eq_none_iff_forall_ne_some.mpr fun p hplace => ?_
        obtain ⟨front, first, hfront, -⟩ := steps_of_place? hplace
        cases (List.append_inj' (hsteps.symm.trans hfront) rfl).2
      · rw [hsteps] at hfile
        rw [look_of_seeks hfile (hwalk.seeks (List.cons_ne_nil _ _) (.up .done)), List.append_nil]
        exact List.Subset.refl _
    · -- the text of the file ends with its name
      refine Or.inl ⟨there ++ [last], .intro ?_ hwalk ?_, ?_⟩
      · rw [hfile, hsteps, hending]
      · rw [String.utf8ByteSize_append] at hshort
        omega
      · intro heq
        have hnames := List.append_cancel_left heq
        exact append_staging_ne last (List.cons.inj hnames).1.symm

/-- The file has the same trail as the staging file, and is another one. -/
theorem names_of_staging (h : Names v (stagingOf file) q trail) (hplace : v.place? file = some p) :
    Names v file p trail ∧ p ≠ q := by
  rcases beside_of_names h with ⟨p', hnames, hne⟩ | ⟨hnone, -⟩
  · obtain rfl := Option.some.inj (hnames.place?.symm.trans hplace)
    exact ⟨hnames, hne⟩
  · cases hnone.symm.trans hplace

/-- The staging file is another file. -/
theorem place?_stagingOf (hplace : v.place? file = some p) : v.place? (stagingOf file) ≠ some p := by
  intro hstaging
  obtain ⟨trail, hnames⟩ := names_of_place? hstaging
  exact (names_of_staging hnames hplace).2 rfl

-- ── Links that may be there ─────────────────────────────────────────────────

/-- The staging file is no link and has no other name. If the file is a symbolic link, it leads
    neither by way of the staging file nor by way of itself; but this does not matter where a
    directory stands in the place of the staging file, since then nothing can be staged. -/
structure Unlinked (file : String) (v : Volume) : Prop where
  staging : ∀ q, v.place? (stagingOf file) = some q → v.isLink q = false ∧
    ∀ number p, v.find? q = some (.file number) → v.find? p = some (.file number) → p = q
  target : ∀ p q, v.place? file = some p → v.isLink p = true → v.place? (stagingOf file) = some q →
    v.find? q ≠ some .directory →
    q ∉ (v.look true file).visited ∧ p ∉ (v.look false file).visited.dropLast

namespace Unlinked

/-- The staging file is not on its own way. -/
theorem not_on_trail (h : Unlinked file v) (hnames : Names v (stagingOf file) q trail)
    (hfree : v.find? q ≠ some .directory) : q ∉ trail := by
  intro hmem
  rcases hnames.on_trail hmem with hdirectory | hlink
  · exact hfree hdirectory
  · cases (h.staging q hnames.place?).1.symm.trans hlink

/-- The file is not looked for at the staging file. -/
theorem not_visited (h : Unlinked file v) (hnames : Names v (stagingOf file) q trail)
    (hfree : v.find? q ≠ some .directory) : q ∉ (v.look true file).visited := by
  have htrail := h.not_on_trail hnames hfree
  rcases beside_of_names hnames with ⟨p, hfile, hne⟩ | ⟨-, hvisited⟩
  · cases hlink : v.isLink p with
    | true => exact (h.target p q hfile.place? hlink hnames.place? hfree).1
    | false =>
      rw [hfile.look true hlink]
      intro hmem
      rcases List.mem_append.mp hmem with hmem | hmem
      · exact htrail hmem
      · exact hne (List.mem_singleton.mp hmem).symm
  · exact fun hmem => htrail (hvisited hmem)

end Unlinked

-- ── Beside the file ─────────────────────────────────────────────────────────

/-- Only the staging file has been touched: there is one, it holds this content, and it has no
    other name. -/
structure Beside (file : String) (q : Path) (trail : List Path) (number : Nat) (content : Bytes)
    (made cur : Volume) : Prop where
  named : Names made (stagingOf file) q trail
  free : made.find? q ≠ some .directory
  staged : cur.find? q = some (.file number)
  alone : ∀ p, cur.find? p = some (.file number) → p = q
  content : cur.contents number = content
  others : ∀ p, p ≠ q → cur.find? p = made.find? p
  elsewhere : ∀ n, n ≠ number → cur.contents n = made.contents n

namespace Beside

/-- No other file is altered. -/
theorem bytesAt? (h : Beside file q trail number content made cur) (hp : p ≠ q) :
    cur.bytesAt? p = made.bytesAt? p := by
  refine bytesAt?_congr (h.others p hp) fun n hn => h.elsewhere n ?_
  rintro rfl
  exact hp (h.alone p ((h.others p hp).trans hn))

/-- What is not the staging file is where it was. -/
theorem ne_of_mem (h : Beside file q trail number content made cur) (hu : Unlinked file made) :
    ∀ p ∈ trail, p ≠ q := by
  rintro p hp rfl
  exact hu.not_on_trail h.named h.free hp

/-- The staging file is still found on the same trail. -/
theorem names (h : Beside file q trail number content made cur) (hu : Unlinked file made) :
    Names cur (stagingOf file) q trail :=
  h.named.congr fun p hp => h.others p (h.ne_of_mem hu p hp)

/-- Whoever opens the staging file gets to it. -/
theorem found (h : Beside file q trail number content made cur) (hu : Unlinked file made) (follow : Bool) :
    cur.look follow (stagingOf file) = ⟨trail ++ [q], .ok (.entry q false)⟩ := by
  refine (h.names hu).look follow ?_
  rw [isLink, h.staged, Bool.and_false]

/-- The file is read as if there were no staging file. -/
theorem read (h : Beside file q trail number content made cur) (hu : Unlinked file made) :
    cur.read file = made.read file := by
  have hne : ∀ p ∈ (made.look true file).visited, p ≠ q := by
    rintro p hp rfl
    exact hu.not_visited h.named h.free hp
  exact read_congr (look_congr fun p hp => h.others p (hne p hp)) fun p hp =>
    ⟨h.others p (hne p hp), h.bytesAt? (hne p hp)⟩

/-- So the place of the file is the same, and is another one. -/
theorem place?_eq_some (h : Beside file q trail number content made cur) (hu : Unlinked file made) :
    cur.place? file = some p ↔ made.place? file = some p := by
  constructor
  · intro hplace
    obtain ⟨hnames, -⟩ := names_of_staging (h.names hu) hplace
    exact (hnames.congr fun p hp => (h.others p (h.ne_of_mem hu p hp)).symm).place?
  · intro hplace
    obtain ⟨hnames, -⟩ := names_of_staging h.named hplace
    exact (hnames.congr fun p hp => h.others p (h.ne_of_mem hu p hp)).place?

/-- The first step puts an empty staging file there, whatever was left there before. -/
theorem create (hu : Unlinked file made) (h : made.create (stagingOf file) = .ok cur) :
    ∃ q trail number, Beside file q trail number [] made cur := by
  obtain ⟨p, hfound, hdone⟩ := create_eq_ok h
  obtain ⟨r, hr⟩ := ofText_of_found hfound
  obtain ⟨way, last, rfl, -⟩ := steps_of_staging hr
  obtain ⟨q, trail, hnames⟩ := names_of_look hr hfound
  obtain ⟨hlink, halone⟩ := hu.staging q hnames.place?
  -- what is opened is the staging file itself, since it is no link
  rw [hnames.look true hlink] at hfound
  obtain ⟨rfl, -⟩ := Goal.entry.inj (Except.ok.inj hfound)
  rcases hdone with ⟨number, hfile, rfl⟩ | ⟨hnone, rfl⟩
  · refine ⟨q, trail, number, hnames, ?_, hfile, fun p hp => halone number p hfile hp, if_pos rfl,
      fun _ _ => rfl, fun n hn => if_neg hn⟩
    rw [hfile]
    exact fun hno => nomatch hno
  · have hfind := made.find?_newFile (ne_root_of_none hnone)
    refine ⟨q, trail, made.next, hnames, ?_, ?_, fun p hp => ?_, if_pos rfl, fun p hp => ?_,
      fun n hn => if_neg hn⟩
    · rw [hnone]
      exact fun hno => nomatch hno
    · rw [hfind, if_pos rfl]
    · rw [hfind] at hp
      split at hp
      next heq => exact heq
      next => exact absurd (number_lt hp) (Nat.lt_irrefl _)
    · rw [hfind, if_neg hp]

/-- What is written stands behind what was staged. -/
theorem append (h : Beside file q trail number content made cur) (hu : Unlinked file made)
    (hafter : cur.append (stagingOf file) bytes = .ok after) :
    Beside file q trail number (content ++ bytes) made after := by
  obtain ⟨p, n, hfound, hfile, rfl⟩ := append_eq_ok hafter
  rw [h.found hu] at hfound
  obtain ⟨rfl, -⟩ := Goal.entry.inj (Except.ok.inj hfound)
  obtain rfl := Entry.file.inj (Option.some.inj (h.staged.symm.trans hfile))
  refine ⟨h.named, h.free, h.staged, h.alone, ?_, h.others, fun n hn => ?_⟩
  · rw [← h.content]
    exact if_pos rfl
  · exact (if_neg hn).trans (h.elsewhere n hn)

end Beside

end Checkpoint

end MetricDepot
