import MetricDepot.Checkpoint.File
import MetricDepot.Proofs.FileSystem.Places
import MetricDepot.Proofs.FileSystem.Ways
/-!
# Staging — replacing a file one effect at a time

    The staging file of a file stands in the same directory under a longer name, so it is
    another file.  Of the effects of a replacement all but the last alter at most the staging
    file, and the last moves it whole or does nothing.

    `Staged file bytes fs pending` says how far a replacement has come when `pending` are the
    effects that it has still to do.
-/

namespace MetricDepot

namespace Route

-- ── The place of the staging file ───────────────────────────────────────────

/-- What is put behind a text joins its last piece. -/
theorem pieces_append (cs : List Char) {ending : List Char} (h : '/' ∉ ending) :
    ∃ init last, pieces cs = init ++ [last] ∧ pieces (cs ++ ending) = init ++ [last ++ ending] := by
  induction cs with
  | nil => exact ⟨[], [], rfl, pieces_of_no_slash h⟩
  | cons c cs ih =>
    obtain ⟨init, last, hcs, hmore⟩ := ih
    rw [List.cons_append]
    by_cases hc : c = '/'
    · refine ⟨[] :: init, last, ?_, ?_⟩
      · rw [pieces, if_pos hc, hcs]
        rfl
      · rw [pieces, if_pos hc, hmore]
        rfl
    · rw [pieces, if_neg hc, hcs, pieces, if_neg hc, hmore]
      cases init with
      | nil => exact ⟨[], c :: last, rfl, rfl⟩
      | cons piece init => exact ⟨(c :: piece) :: init, last, rfl, rfl⟩

/-- The same of texts. -/
theorem piecesOf_append (text : String) {ending : String} (h : '/' ∉ ending.toList) :
    ∃ init last, piecesOf text = init ++ [last] ∧
      piecesOf (text ++ ending) = init ++ [last ++ ending] := by
  obtain ⟨init, last, htext, hmore⟩ := pieces_append text.toList h
  refine ⟨init.map String.ofList, String.ofList last, ?_, ?_⟩
  · rw [piecesOf, htext, List.map_append, List.map_singleton]
  · rw [piecesOf, String.toList_append, hmore, List.map_append, List.map_singleton,
      String.ofList_append, String.ofList_toList]

/-- A text that ends with no slash and no full stop ends with a step. -/
theorem ne_of_endingOf {text last : String} {init : List String} (h : piecesOf text = init ++ [last])
    (hending : endingOf text = .nothing) : last ≠ "" ∧ last ≠ "." := by
  have hbackwards : (piecesOf text).reverse = last :: init.reverse := by
    rw [h, List.reverse_append]
    rfl
  rw [endingOf, hbackwards] at hending
  refine ⟨?_, ?_⟩
  · rintro rfl
    split at hending
    · cases hending
    · cases hending
  · rintro rfl
    cases hending

/-- A text that ends with a step ends with nothing behind it. -/
theorem endingOf_of_pieces {text last : String} {init : List String} (h : piecesOf text = init ++ [last])
    (hne : last ≠ "") (hstop : last ≠ ".") : endingOf text = .nothing := by
  have hbackwards : (piecesOf text).reverse = last :: init.reverse := by
    rw [h, List.reverse_append]
    rfl
  have hkeep : (last :: init.reverse).dropWhile (· == "") = last :: init.reverse := by
    rw [List.dropWhile_cons_of_neg]
    simpa using hne
  rw [endingOf, hbackwards, hkeep, List.head?_cons, if_neg (fun heq => hstop (Option.some.inj heq)),
    if_neg (fun heq => hne (Option.some.inj heq))]

/-- A piece that leads into something is the name of it. -/
theorem eq_of_ofPiece? {piece name : String} (h : Step.ofPiece? piece = some (.into name)) :
    name = piece ∧ piece ≠ "" ∧ piece ≠ "." := by
  rw [Step.ofPiece?] at h
  split at h
  · cases h
  next hstay =>
    split at h
    · cases h
    · exact ⟨(Step.into.inj (Option.some.inj h)).symm, fun heq => hstay (Or.inl heq),
        fun heq => hstay (Or.inr heq)⟩

/-- A text that names a place ends with the name. -/
theorem place_of_pieces {text last : String} {init : List String} {p : Path}
    (h : piecesOf text = init ++ [last]) (hplace : placeOf? text = some p) :
    p = lands [] (init.filterMap Step.ofPiece?) ++ [last] := by
  rw [placeOf?, ofText] at hplace
  split at hplace
  next => cases hplace
  next r hr =>
    split at hr
    · cases hr
    · split at hr
      · cases hr
      · obtain rfl := Except.ok.inj hr
        dsimp only at hplace
        split at hplace
        next name hending hlast =>
          obtain ⟨hne, hstop⟩ := ne_of_endingOf h hending
          have hsteps : stepsOf text
              = init.filterMap Step.ofPiece? ++ [last].filterMap Step.ofPiece? := by
            rw [stepsOf, h, List.filterMap_append]
          by_cases hup : last = ".."
          · have hpiece : Step.ofPiece? last = some .up := by
              rw [Step.ofPiece?, if_neg (by simp [hne, hstop]), if_pos hup]
            rw [hsteps, List.filterMap_cons_some hpiece, List.filterMap_nil,
              List.getLast?_concat] at hlast
            cases hlast
          · have hpiece : Step.ofPiece? last = some (.into last) := by
              rw [Step.ofPiece?, if_neg (by simp [hne, hstop]), if_neg hup]
            rw [hsteps, List.filterMap_cons_some hpiece, List.filterMap_nil, lands_append] at hplace
            exact (Option.some.inj hplace).symm
        next => cases hplace

end Route

namespace Checkpoint

open FileSystem Route

variable {file : String} {bytes : Bytes} {fs fs' : FileSystem} {q : Path}

/-- The name of the staging file is longer. -/
theorem append_staging_ne (last : String) : last ++ stagingEnding ≠ last := by
  intro h
  have hlength := congrArg String.length h
  have hending : 0 < stagingEnding.length := by decide
  rw [String.length_append] at hlength
  omega

/-- The staging file is another file. -/
theorem placeOf?_stagingOf {file : String} {p : Path} (hplace : placeOf? file = some p) :
    placeOf? (stagingOf file) ≠ some p := by
  intro hstaging
  obtain ⟨init, last, hfile, hmore⟩ :=
    piecesOf_append file (show '/' ∉ stagingEnding.toList by decide)
  have hp := place_of_pieces hfile hplace
  have hq := place_of_pieces hmore hstaging
  have hnames : last = last ++ stagingEnding := by
    have := List.append_cancel_left (hp.symm.trans hq)
    exact (List.cons.inj this).1
  exact append_staging_ne last hnames.symm

-- ── The way to the staging file ─────────────────────────────────────────────

/-- The name of a staging file is a name and no step back. -/
theorem ofPiece?_staging (last : String) :
    Step.ofPiece? (last ++ stagingEnding) = some (.into (last ++ stagingEnding)) := by
  have hlength : 2 < (last ++ stagingEnding).length := by
    have hending : 2 < stagingEnding.length := by decide
    rw [String.length_append]
    omega
  have hne : ∀ short : String, short.length ≤ 2 → last ++ stagingEnding ≠ short := by
    rintro short hshort rfl
    omega
  rw [Step.ofPiece?, if_neg, if_neg (hne ".." (by decide))]
  rintro (h | h)
  · exact hne "" (by decide) h
  · exact hne "." (by decide) h

/-- A text that may be a path may be one without its ending. -/
theorem ofText_of_staging {r : Route} (h : ofText (stagingOf file) = .ok r) :
    ofText file = .ok ⟨stepsOf file, endingOf file⟩ := by
  rw [ofText] at h
  split at h
  · cases h
  next hzero =>
    split at h
    · cases h
    next hlength =>
      have hzero' : ¬ file.toList.contains (Char.ofNat 0) = true := by
        intro hmem
        refine hzero ?_
        rw [List.contains_iff_mem] at hmem ⊢
        rw [stagingOf, String.toList_append]
        exact List.mem_append_left _ hmem
      have hlength' : ¬ textLimit < file.utf8ByteSize := by
        rw [stagingOf, String.utf8ByteSize_append] at hlength
        omega
      rw [ofText, if_neg hzero', if_neg hlength']

/-- The staging file has a name at the end of its way. The file has the same way, and behind it the
    name without the ending, a step back, or no step. -/
theorem steps_of_staging {r : Route} (h : ofText (stagingOf file) = .ok r) :
    ∃ way last, r = ⟨way ++ [.into (last ++ stagingEnding)], .nothing⟩ ∧
      (stepsOf file = way ∧ endingOf file ≠ .nothing ∨ stepsOf file = way ++ [.up] ∨
        stepsOf file = way ++ [.into last] ∧ endingOf file = .nothing) := by
  obtain ⟨init, last, hfile, hstaging⟩ := piecesOf_append file (show '/' ∉ stagingEnding.toList by decide)
  have hname := ofPiece?_staging last
  obtain ⟨-, hempty, hstop⟩ := eq_of_ofPiece? hname
  have hsteps : stepsOf file = init.filterMap Step.ofPiece? ++ [last].filterMap Step.ofPiece? := by
    rw [stepsOf, hfile, List.filterMap_append]
  refine ⟨init.filterMap Step.ofPiece?, last, ?_, ?_⟩
  · rw [eq_of_ofText h, stagingOf, endingOf_of_pieces hstaging hempty hstop, stepsOf, hstaging,
      List.filterMap_append, List.filterMap_cons_some hname, List.filterMap_nil]
  cases hpiece : Step.ofPiece? last with
  | none =>
    rw [List.filterMap_cons_none hpiece, List.filterMap_nil, List.append_nil] at hsteps
    refine Or.inl ⟨hsteps, fun hending => ?_⟩
    obtain ⟨hne, hdot⟩ := ne_of_endingOf hfile hending
    rw [Step.ofPiece?, if_neg (by simp [hne, hdot])] at hpiece
    split at hpiece
    · cases hpiece
    · cases hpiece
  | some step =>
    rw [List.filterMap_cons_some hpiece, List.filterMap_nil] at hsteps
    cases step with
    | up => exact Or.inr (Or.inl hsteps)
    | into name =>
      obtain ⟨rfl, hne, hdot⟩ := eq_of_ofPiece? hpiece
      exact Or.inr (Or.inr ⟨hsteps, endingOf_of_pieces hfile hne hdot⟩)

-- ── Ends of effects ─────────────────────────────────────────────────────────

section Ends

variable {σ : Type} {files files' : σ} {result : Except IoError σ} {reason : IoError}

/-- An operation that is done has changed the files. -/
theorem outcome_eq_ok (h : Files.outcome files result = (files', .ok ())) : result = .ok files' := by
  cases result with
  | ok changed => rw [(Prod.mk.inj h).1]
  | error reason => cases (Prod.mk.inj h).2

/-- An operation that fails has changed nothing. -/
theorem outcome_eq_error (h : Files.outcome files result = (files', .error reason)) : files' = files := by
  cases result with
  | ok changed => cases (Prod.mk.inj h).2
  | error _ => exact (Prod.mk.inj h).1.symm

variable [Files σ] {d after : Device σ} {e : Effect}

/-- An effect that is done was not interrupted. -/
theorem perform_eq_ok (h : d.perform e = (after, .ok ())) :
    Files.perform d.files e = (after.files, .ok ()) := by
  rw [Device.perform] at h
  split at h
  · cases (Prod.mk.inj h).2
  · obtain ⟨rfl, hdone⟩ := Prod.mk.inj h
    exact Prod.ext rfl hdone

/-- An effect that fails was interrupted, or there is a reason in the file system. -/
theorem perform_eq_error (h : d.perform e = (after, .error reason)) :
    (∃ done, after.files = Files.interrupted d.files done e) ∨
      Files.perform d.files e = (after.files, .error reason) := by
  rw [Device.perform] at h
  split at h
  next done _ _ => exact Or.inl ⟨done, by rw [← (Prod.mk.inj h).1]⟩
  next =>
    obtain ⟨rfl, hreason⟩ := Prod.mk.inj h
    exact Or.inr (Prod.ext rfl hreason)

end Ends

-- ── How far a replacement has come ──────────────────────────────────────────

/-- The effects that put bytes into the staging file and move it. -/
def staging (file : String) (bytes : Bytes) : List Effect :=
  [.create (stagingOf file), .append (stagingOf file) bytes, .sync (stagingOf file),
    .rename (stagingOf file) file]

/-- What the files hold when a replacement has the pending effects still to do. -/
inductive Staged (file : String) (bytes : Bytes) (fs : FileSystem) : List Effect → Prop where
  | directories (route : String) : Staged file bytes fs (.makeDirectories route :: staging file bytes)
  | create : Staged file bytes fs (staging file bytes)
  | append (hstaging : fs.content? (stagingOf file) = some []) :
      Staged file bytes fs [.append (stagingOf file) bytes, .sync (stagingOf file),
        .rename (stagingOf file) file]
  | sync (hstaging : fs.content? (stagingOf file) = some bytes) :
      Staged file bytes fs [.sync (stagingOf file), .rename (stagingOf file) file]
  | rename (hstaging : fs.content? (stagingOf file) = some bytes) :
      Staged file bytes fs [.rename (stagingOf file) file]
  | done (hfile : fs.read file = .ok bytes) : Staged file bytes fs []

variable {d after : Disk} {e : Effect} {pending : List Effect}

/-- A replacement that has not begun has everything still to do. -/
theorem staged_replacement (file : String) (bytes : Bytes) (fs : FileSystem) :
    Staged file bytes fs (replacement file bytes) := by
  rw [replacement]
  split
  · exact .create
  · exact .directories _

/-- There is always something to do. -/
theorem replacement_ne_nil (file : String) (bytes : Bytes) : replacement file bytes ≠ [] := by
  intro h
  cases (List.append_eq_nil_iff.mp h).2

/-- What alters at most the staging file leaves the file untouched. -/
theorem untouched_of_staging {places : List Path}
    (hplaces : ∀ p ∈ places, placeOf? (stagingOf file) = some p) (h : Alters places fs fs') :
    Untouched file fs fs' := by
  refine h.untouched ?_
  intro p hplace hmem
  exact placeOf?_stagingOf hplace (hplaces p hmem)

/-- A move that fails changes nothing. -/
theorem files_of_rename_error {source target : String} {reason : IoError}
    (h : d.perform (.rename source target) = (after, .error reason)) : after.files = d.files := by
  rcases perform_eq_error h with ⟨done, hinterrupted⟩ | hended
  · exact hinterrupted
  · exact outcome_eq_error hended

namespace Staged

/-- All effects but the last leave the file untouched, whether they are done or fail. -/
theorem untouched (h : Staged file bytes d.files (e :: pending)) (hpending : pending ≠ []) :
    Untouched file d.files (d.perform e).1.files := by
  have halters := d.alters_perform e
  refine untouched_of_staging ?_ halters
  intro p hp
  cases h with
  | directories | sync => cases hp
  | create | append => exact Option.mem_toList.mp hp
  | rename => exact absurd rfl hpending

/-- An effect that fails leaves the file untouched, also if it is the last. -/
theorem fault (h : Staged file bytes d.files (e :: pending)) {reason : IoError}
    (heffect : d.perform e = (after, .error reason)) : Untouched file d.files after.files := by
  by_cases hpending : pending = []
  · cases h with
    | rename =>
      rw [files_of_rename_error heffect]
      exact .refl _ _
    | directories | create | append | sync => cases hpending
  · have := h.untouched hpending
    rw [heffect] at this
    exact this

/-- An effect that is done brings the replacement one stage further. -/
theorem advance (h : Staged file bytes d.files (e :: pending))
    (heffect : d.perform e = (after, .ok ())) : Staged file bytes after.files pending := by
  have hdone := perform_eq_ok heffect
  cases h with
  | directories => exact .create
  | create =>
    obtain ⟨p, -, -, hcontent⟩ := create_eq_ok (outcome_eq_ok hdone)
    exact .append hcontent
  | append hstaging =>
    obtain ⟨p, before, -, -, hbefore, hcontent⟩ := append_eq_ok (outcome_eq_ok hdone)
    rw [hstaging] at hbefore
    obtain rfl := Option.some.inj hbefore
    exact .sync hcontent
  | sync hstaging =>
    rw [← (Prod.mk.inj hdone).1]
    exact .rename hstaging
  | rename hstaging =>
    obtain ⟨origin, p, found, -, -, -, hfound, hread⟩ := rename_eq_ok (outcome_eq_ok hdone)
    rw [hstaging] at hfound
    obtain rfl := Option.some.inj hfound
    exact .done hread

/-- Who leaves the file and its staging file alone does not set a replacement back. -/
theorem undisturbed (h : Staged file bytes fs pending) (hfile : Untouched file fs fs')
    (hstaging : fs'.content? (stagingOf file) = fs.content? (stagingOf file)) :
    Staged file bytes fs' pending := by
  cases h with
  | directories route => exact .directories route
  | create => exact .create
  | append hempty => exact .append (hstaging.trans hempty)
  | sync hwritten => exact .sync (hstaging.trans hwritten)
  | rename hwritten => exact .rename (hstaging.trans hwritten)
  | done hread => exact .done (hfile.read bytes hread)

end Staged

end Checkpoint

end MetricDepot
