import MetricDepot.Proofs.FileSystem.Changes
/-!
# Ways — the directories on the way to a file

    The text of the parent of a file is read as the steps to the file without the last.  So to
    make the parent directory is to make directories on the way to the file, the outermost
    first, and `makeWay file n` has made at most the first `n` of them.

    Where a directory on the way is missing the file is not found (`Seeks.gap`), and to make
    the directory may open the way to a file that was there all along.  Where the file is
    found there is no directory to make, and it is read as before (`read_makeWay`).
-/

namespace MetricDepot

namespace Route

-- ── The text of the parent ──────────────────────────────────────────────────

/-- What has no slash is one piece. -/
theorem pieces_of_no_slash {ending : List Char} (h : '/' ∉ ending) : pieces ending = [ending] := by
  induction ending with
  | nil => rfl
  | cons c rest ih =>
    have hc : c ≠ '/' := fun heq => h (heq ▸ List.mem_cons_self)
    rw [pieces, if_neg hc, ih (fun hrest => h (List.mem_cons_of_mem c hrest))]

/-- The first slash ends the first piece. -/
theorem pieces_append_slash {piece : List Char} (h : '/' ∉ piece) (rest : List Char) :
    pieces (piece ++ '/' :: rest) = piece :: pieces rest := by
  induction piece with
  | nil => rw [List.nil_append, pieces, if_pos rfl]
  | cons c piece ih =>
    have hc : c ≠ '/' := fun heq => h (heq ▸ List.mem_cons_self)
    rw [List.cons_append, pieces, if_neg hc, ih (fun hrest => h (List.mem_cons_of_mem c hrest))]

/-- No piece has a slash in it. -/
theorem no_slash_of_mem_pieces {cs piece : List Char} (h : piece ∈ pieces cs) : '/' ∉ piece := by
  induction cs generalizing piece with
  | nil =>
    rw [List.mem_singleton.mp h]
    exact List.not_mem_nil
  | cons c cs ih =>
    rw [pieces] at h
    split at h
    · rcases List.mem_cons.mp h with rfl | h
      · exact List.not_mem_nil
      · exact ih h
    next hc =>
      have hfirst : ∀ piece, '/' ∉ piece → '/' ∉ c :: piece := by
        intro piece hpiece hmem
        rcases List.mem_cons.mp hmem with heq | hmem
        · exact hc heq.symm
        · exact hpiece hmem
      split at h
      next =>
        rw [List.mem_singleton.mp h]
        exact hfirst [] List.not_mem_nil
      next first more hpieces =>
        rcases List.mem_cons.mp h with rfl | h
        · exact hfirst _ (ih (hpieces ▸ List.mem_cons_self))
        · exact ih (hpieces ▸ List.mem_cons_of_mem _ h)

/-- Pieces with slashes between them are taken apart again. -/
theorem pieces_intercalate {piece : List Char} {more : List (List Char)}
    (h : ∀ p ∈ piece :: more, '/' ∉ p) : pieces (['/'].intercalate (piece :: more)) = piece :: more := by
  induction more generalizing piece with
  | nil =>
    rw [List.intercalate_singleton]
    exact pieces_of_no_slash (h piece List.mem_cons_self)
  | cons next more ih =>
    rw [List.intercalate_cons_cons, List.append_assoc, List.singleton_append,
      pieces_append_slash (h piece List.mem_cons_self), ih fun p hp => h p (List.mem_cons_of_mem piece hp)]

/-- A step that a text asks for can be asked for by a text. -/
theorem ofPiece?_text {text : String} {step : Step} (h : step ∈ stepsOf text) :
    Step.ofPiece? step.text = some step ∧ '/' ∉ step.text.toList := by
  obtain ⟨piece, hpiece, hstep⟩ := List.mem_filterMap.mp h
  obtain ⟨cs, hcs, rfl⟩ := List.mem_map.mp hpiece
  have htext : step.text = String.ofList cs := by
    rw [Step.ofPiece?] at hstep
    split at hstep
    · cases hstep
    · split at hstep
      next hup =>
        obtain rfl := Option.some.inj hstep
        exact hup.symm
      next =>
        obtain rfl := Option.some.inj hstep
        rfl
  rw [htext, String.toList_ofList]
  exact ⟨hstep, no_slash_of_mem_pieces hcs⟩

/-- Steps are read back from the pieces that ask for them. -/
theorem filterMap_text {steps : List Step} (h : ∀ step ∈ steps, Step.ofPiece? step.text = some step) :
    (steps.map Step.text).filterMap Step.ofPiece? = steps := by
  induction steps with
  | nil => rfl
  | cons step steps ih =>
    rw [List.map_cons, List.filterMap_cons_some (h step List.mem_cons_self),
      ih fun s hs => h s (List.mem_cons_of_mem step hs)]

/-- Steps are read back from a text with slashes between them. -/
theorem stepsOf_intercalate {steps : List Step}
    (h : ∀ step ∈ steps, Step.ofPiece? step.text = some step ∧ '/' ∉ step.text.toList) :
    stepsOf ("/".intercalate (steps.map Step.text)) = steps := by
  have hread := filterMap_text fun step hstep => (h step hstep).1
  cases steps with
  | nil => rfl
  | cons step steps =>
    have hpieces : piecesOf ("/".intercalate ((step :: steps).map Step.text))
        = (step :: steps).map Step.text := by
      have hslash : ∀ p ∈ ((step :: steps).map Step.text).map String.toList, '/' ∉ p := by
        intro p hp
        obtain ⟨text, htext, rfl⟩ := List.mem_map.mp hp
        obtain ⟨step, hstep, rfl⟩ := List.mem_map.mp htext
        exact (h step hstep).2
      rw [List.map_cons, List.map_cons] at hslash
      rw [piecesOf, String.toList_intercalate, List.map_cons, List.map_cons,
        show "/".toList = ['/'] from rfl, pieces_intercalate hslash, List.map_cons, List.map_map,
        String.ofList_toList]
      congr 1
      refine (List.map_congr_left fun text _ => ?_).trans (List.map_id _)
      exact String.ofList_toList
    rw [stepsOf, hpieces, hread]

/-- A text that describes a route describes its own steps. -/
theorem eq_of_ofText {text : String} {r : Route} (h : ofText text = .ok r) : r = ⟨stepsOf text, endingOf text⟩ := by
  rw [ofText] at h
  split at h
  · cases h
  · split at h
    · cases h
    · exact (Except.ok.inj h).symm

/-- The parent of a text is one step short of it. -/
theorem stepsOf_parentOf (text : String) : stepsOf (parentOf text) = (stepsOf text).dropLast :=
  stepsOf_intercalate fun _ hstep => ofPiece?_text (List.dropLast_subset _ hstep)

-- ── Directories on the way ──────────────────────────────────────────────────

/-- The routes to the directories on the way to a file, the outermost first. -/
def wayOf (file : String) : List Route :=
  match ofText (parentOf file) with
  | .ok r => r.ancestors ++ [r]
  | .error _ => []

/-- A beginning is a prefix. -/
theorem prefix_of_mem_beginnings {α : Type} {l m : List α} (h : m ∈ beginnings l) : m <+: l := by
  induction l generalizing m with
  | nil => cases h
  | cons a l ih =>
    cases l with
    | nil => cases h
    | cons b l =>
      rw [beginnings] at h
      rcases List.mem_cons.mp h with rfl | h
      · exact ⟨b :: l, rfl⟩
      · obtain ⟨n, hn, rfl⟩ := List.mem_map.mp h
        exact (List.prefix_cons_inj a).mpr (ih hn)
      · exact fun h => nomatch h

/-- The directories on the way to a file are reached by beginnings of its steps. -/
theorem steps_of_mem_wayOf {file : String} {r : Route} (h : r ∈ wayOf file) :
    r.steps <+: (stepsOf file).dropLast := by
  rw [wayOf] at h
  split at h
  next parent hparent =>
    have hsteps : parent.steps = (stepsOf file).dropLast := by
      rw [eq_of_ofText hparent, stepsOf_parentOf]
    rw [← hsteps]
    rcases List.mem_append.mp h with h | h
    · obtain ⟨steps, hbeginning, rfl⟩ := List.mem_map.mp h
      exact prefix_of_mem_beginnings hbeginning
    · obtain rfl := List.mem_singleton.mp h
      exact List.prefix_rfl
  next => cases h

end Route

namespace Volume

open FileSystem Route

variable {v v' v'' : Volume} {file : String} {p : Path} {r : Route}

/-- The volume with at most the first `n` directories on the way to a file made. -/
def makeWay (v : Volume) (file : String) (n : Nat) : Volume := (Files.makeEach v ((wayOf file).take n)).1

/-- A place to which a beginning of the way to a file leads. -/
def OnWay (file : String) (v : Volume) (p : Path) : Prop :=
  ∃ (r : Route) (slash : Bool), r.steps <+: (stepsOf file).dropLast ∧
    (v.seek false linkLimit [] r).found = .ok (.entry p slash)

/-- All is as before, but for directories on the way to a file that were missing. -/
structure Extends (file : String) (v v' : Volume) : Prop where
  entries : ∀ p, v'.find? p = v.find? p ∨ OnWay file v' p ∧ v.find? p = none ∧ v'.find? p = some .directory
  contents : v'.contents = v.contents

namespace Extends

theorem refl (file : String) (v : Volume) : Extends file v v := ⟨fun _ => Or.inl rfl, rfl⟩

/-- Only directories have come. -/
theorem grows (h : Extends file v v') : Grows v v' := fun p => (h.entries p).imp_right And.right

/-- A way that leads somewhere still does when there are new directories. -/
theorem onWay (h : Extends file v v') (hp : OnWay file v p) : OnWay file v' p := by
  obtain ⟨r, slash, hbegin, hfound⟩ := hp
  refine ⟨r, slash, hbegin, ?_⟩
  rw [((seeks v false linkLimit [] r).grow h.grows hfound).eq]
  exact hfound

theorem trans (h : Extends file v v') (h' : Extends file v' v'') : Extends file v v'' := by
  refine ⟨fun p => ?_, h'.contents.trans h.contents⟩
  rcases h.entries p with hsame | ⟨hway, hnone, hmade⟩
  · rw [← hsame]
    exact h'.entries p
  · exact Or.inr ⟨h'.onWay hway, hnone, h'.grows.find? hmade⟩

/-- Directories that were missing are no files. -/
theorem bytesAt? (h : Extends file v v') (p : Path) : v'.bytesAt? p = v.bytesAt? p := by
  rcases h.entries p with hsame | ⟨-, hnone, hmade⟩
  · exact bytesAt?_congr hsame fun number _ => congrFun h.contents number
  · rw [bytesAt?_of_directory hmade, bytesAt?_of_none hnone]

end Extends

/-- A directory that is made was missing on the way. -/
theorem extends_makeDirectory (hbegin : r.steps <+: (stepsOf file).dropLast)
    (h : v.makeDirectory r = .ok v') : Extends file v v' := by
  rcases makeDirectory_eq_ok h with rfl | ⟨p, slash, hfound, hnone, rfl⟩
  · exact .refl file _
  · have hfind := v.find?_newDirectory (ne_root_of_none hnone)
    have hgrows : Grows v (v.newDirectory p) := by
      intro q
      rw [hfind]
      by_cases hq : q = p
      · rw [if_pos hq, hq]
        exact Or.inr ⟨hnone, rfl⟩
      · rw [if_neg hq]
        exact Or.inl rfl
    refine ⟨fun q => ?_, rfl⟩
    by_cases hq : q = p
    · refine Or.inr ⟨⟨r, slash, hbegin, ?_⟩, hq ▸ hnone, ?_⟩
      · rw [((seeks v false linkLimit [] r).grow hgrows hfound).eq, hq]
        exact hfound
      · rw [hfind, if_pos hq]
    · refine Or.inl ?_
      rw [hfind, if_neg hq]

/-- So were all that are made. -/
theorem extends_makeEach {routes : List Route} (h : ∀ r ∈ routes, r.steps <+: (stepsOf file).dropLast) :
    Extends file v (Files.makeEach v routes).1 := by
  induction routes generalizing v with
  | nil => exact .refl file v
  | cons r routes ih =>
    rw [Files.makeEach]
    cases hmade : Files.makeDirectory v r with
    | error e => exact .refl file v
    | ok made =>
      have hfirst := extends_makeDirectory (h r List.mem_cons_self) hmade
      exact hfirst.trans (ih fun r hr => h r (List.mem_cons_of_mem _ hr))

/-- **To make the way to a file only makes missing directories on it.** -/
theorem extends_makeWay (v : Volume) (file : String) (n : Nat) : Extends file v (v.makeWay file n) :=
  extends_makeEach fun _ hr => steps_of_mem_wayOf (List.mem_of_mem_take hr)

-- ── Ways without gaps ───────────────────────────────────────────────────────

/-- A beginning of the way to a file that leads to a name has a step behind it. -/
theorem steps_behind {slash : Bool} (hbegin : r.steps <+: (stepsOf file).dropLast)
    (hfound : (v.seek false linkLimit [] r).found = .ok (.entry p slash)) :
    ∃ more, more ≠ [] ∧ r.steps ++ more = stepsOf file := by
  obtain ⟨more, hmore⟩ := hbegin
  rcases List.eq_nil_or_concat (stepsOf file) with hnil | ⟨front, last, hsteps⟩
  · obtain ⟨⟨way, name, hname⟩, -⟩ := (seeks v false linkLimit [] r).ends hfound
    rw [hnil, hname] at hmore
    cases (List.append_eq_nil_iff.mp (List.append_eq_nil_iff.mp hmore).1).2
  · rw [hsteps, List.concat_eq_append, List.dropLast_concat] at hmore
    refine ⟨more ++ [last], List.concat_ne_nil last more, ?_⟩
    rw [hsteps, List.concat_eq_append, ← hmore, List.append_assoc]

/-- Where a directory on the way to a file is missing, the file is not found. -/
theorem found_of_gap {slash : Bool} (hbegin : r.steps <+: (stepsOf file).dropLast)
    (hfound : (v.seek false linkLimit [] r).found = .ok (.entry p slash)) (hnone : v.find? p = none)
    (hr : ofText file = .ok ⟨stepsOf file, endingOf file⟩) : (v.look true file).found = .error .notFound := by
  obtain ⟨more, hne, hsteps⟩ := steps_behind hbegin hfound
  obtain ⟨s, hs, hgap⟩ := (seeks v false linkLimit [] r).gap hfound hnone hne true (endingOf file)
  rw [hsteps] at hs
  rw [look_of_seeks hr hs]
  exact hgap

/-- Where none of some directories is missing, none is made. -/
theorem makeEach_eq_self {routes : List Route}
    (h : ∀ r ∈ routes, ∀ made, v.makeDirectory r = .ok made → made = v) : (Files.makeEach v routes).1 = v := by
  induction routes with
  | nil => rfl
  | cons r routes ih =>
    rw [Files.makeEach]
    cases hmade : Files.makeDirectory v r with
    | error e => rfl
    | ok made =>
      obtain rfl := h r List.mem_cons_self made hmade
      exact ih fun r hr => h r (List.mem_cons_of_mem _ hr)

/-- **Where a file is found, or something else stands in the way, it is read as before.** -/
theorem read_makeWay (h : (v.look true file).found ≠ .error .notFound) (n : Nat) :
    (v.makeWay file n).read file = v.read file := by
  cases hr : ofText file with
  | error e =>
    have hread : ∀ v : Volume, v.read file = .error e := by
      intro v
      rw [read, Volume.file, look, hr]
      rfl
    rw [hread, hread]
  | ok r =>
    rw [eq_of_ofText hr] at hr
    have hself : v.makeWay file n = v := by
      refine makeEach_eq_self fun r hmem made hmade => ?_
      rcases makeDirectory_eq_ok hmade with hsame | ⟨p, slash, hfound, hnone, -⟩
      · exact hsame
      · have hbegin := steps_of_mem_wayOf (List.mem_of_mem_take hmem)
        exact absurd (found_of_gap hbegin hfound hnone hr) h
    rw [hself]

end Volume

end MetricDepot
