import MetricDepot.FileSystem.Volume
import MetricDepot.Proofs.Answer
/-!
# Searches — where a way through links leads

    What a search does next depends on what stands at one place: `Seeks` has one rule for each
    thing that may stand there, and its derivations are the searches (`seeks`, `Seeks.eq`).  So
    what is true of all searches is proved by induction on a derivation, one rule at a time.

    `Walks` is the part of a search that gets through: every place on its trail is a directory
    or a link.  A search for a name walks to the directory of the name first, and `Names` says
    that it has got there.
-/

namespace MetricDepot

namespace Volume

open FileSystem Route

variable {v v' : Volume} {follow : Bool} {links left : Nat} {here there p q : Path} {name text : String}
  {steps rest more : List Step} {ending : Ending} {r : Route} {s : Search} {trail : List Path}
  {g : Goal} {l : Link}

-- ── The rules of a search ───────────────────────────────────────────────────

/-- What a search does. -/
inductive Seeks (v : Volume) (follow : Bool) : Nat → Path → Route → Search → Prop where
  | done {links : Nat} {here : Path} {ending : Ending} :
      Seeks v follow links here ⟨[], ending⟩ ⟨[], .ok (.directory here)⟩
  | up {links : Nat} {here : Path} {rest : List Step} {ending : Ending} {s : Search}
      (h : Seeks v follow links here.dropLast ⟨rest, ending⟩ s) :
      Seeks v follow links here ⟨.up :: rest, ending⟩ s
  | long {links : Nat} {here : Path} {name : String} {rest : List Step} {ending : Ending}
      (hlong : nameLimit < name.utf8ByteSize) :
      Seeks v follow links here ⟨.into name :: rest, ending⟩ ⟨[], .error .nameTooLong⟩
  | arrive {links : Nat} {here : Path} {name : String} {rest : List Step} {ending : Ending}
      (hshort : ¬ nameLimit < name.utf8ByteSize) (hend : v.isEnd follow rest ending (here ++ [name]) = true) :
      Seeks v follow links here ⟨.into name :: rest, ending⟩
        ⟨[here ++ [name]], .ok (.entry (here ++ [name]) (ending == .slash))⟩
  | directory {links : Nat} {here : Path} {name : String} {rest : List Step} {ending : Ending} {s : Search}
      (hshort : ¬ nameLimit < name.utf8ByteSize) (hend : v.isEnd follow rest ending (here ++ [name]) = false)
      (hfind : v.find? (here ++ [name]) = some .directory)
      (h : Seeks v follow links (here ++ [name]) ⟨rest, ending⟩ s) :
      Seeks v follow links here ⟨.into name :: rest, ending⟩ (s.after (here ++ [name]))
  | link {links : Nat} {here : Path} {name : String} {rest : List Step} {ending : Ending} {s : Search}
      {l : Link} (hshort : ¬ nameLimit < name.utf8ByteSize)
      (hend : v.isEnd follow rest ending (here ++ [name]) = false)
      (hfind : v.find? (here ++ [name]) = some (.link l))
      (h : Seeks v follow links (l.origin here) (l.onward rest ending) s) :
      Seeks v follow (links + 1) here ⟨.into name :: rest, ending⟩ (s.after (here ++ [name]))
  | exhausted {here : Path} {name : String} {rest : List Step} {ending : Ending} {l : Link}
      (hshort : ¬ nameLimit < name.utf8ByteSize) (hend : v.isEnd follow rest ending (here ++ [name]) = false)
      (hfind : v.find? (here ++ [name]) = some (.link l)) :
      Seeks v follow 0 here ⟨.into name :: rest, ending⟩ ⟨[here ++ [name]], .error .tooManyLinks⟩
  | file {links : Nat} {here : Path} {name : String} {rest : List Step} {ending : Ending} {number : Nat}
      (hshort : ¬ nameLimit < name.utf8ByteSize) (hend : v.isEnd follow rest ending (here ++ [name]) = false)
      (hfind : v.find? (here ++ [name]) = some (.file number)) :
      Seeks v follow links here ⟨.into name :: rest, ending⟩ ⟨[here ++ [name]], .error .notADirectory⟩
  | missing {links : Nat} {here : Path} {name : String} {rest : List Step} {ending : Ending}
      (hshort : ¬ nameLimit < name.utf8ByteSize) (hend : v.isEnd follow rest ending (here ++ [name]) = false)
      (hfind : v.find? (here ++ [name]) = none) :
      Seeks v follow links here ⟨.into name :: rest, ending⟩ ⟨[here ++ [name]], .error .notFound⟩

/-- Steps are taken by the rules, if what goes on behind a link is. -/
theorem seeks_seekWith {chase : Path → Route → Search}
    (hchase : ∀ here name rest l, ¬ nameLimit < name.utf8ByteSize →
      v.isEnd follow rest ending (here ++ [name]) = false → v.find? (here ++ [name]) = some (.link l) →
      Seeks v follow links here ⟨.into name :: rest, ending⟩
        ((chase (l.origin here) (l.onward rest ending)).after (here ++ [name]))) :
    Seeks v follow links here ⟨steps, ending⟩ (v.seekWith follow ending chase here steps) := by
  induction steps generalizing here with
  | nil => exact .done
  | cons step rest ih =>
    cases step with
    | up => exact .up ih
    | into name =>
      rw [seekWith]
      split
      next hlong => exact .long hlong
      next hshort =>
        split
        next hend => exact .arrive hshort hend
        next hend =>
          have hend := Bool.eq_false_iff.mpr hend
          split
          next hfind => exact .directory hshort hend hfind ih
          next l hfind => exact hchase here name rest l hshort hend hfind
          next hfind => exact .file hshort hend hfind
          next hfind => exact .missing hshort hend hfind

/-- Every search goes by the rules. -/
theorem seeks (v : Volume) (follow : Bool) (links : Nat) (here : Path) (r : Route) :
    Seeks v follow links here r (v.seek follow links here r) := by
  induction links generalizing here r with
  | zero => exact seeks_seekWith fun _ _ _ _ hshort hend hfind => .exhausted hshort hend hfind
  | succ links ih => exact seeks_seekWith fun _ _ _ _ hshort hend hfind => .link hshort hend hfind (ih _ _)

/-- Where a link is met, the search goes on with one link less. -/
def chase (v : Volume) (follow : Bool) : Nat → Path → Route → Search
  | 0, _, _ => ⟨[], .error .tooManyLinks⟩
  | links + 1, here, r => v.seek follow links here r

/-- A step back is taken without a look. -/
theorem seek_up (links : Nat) (here : Path) (rest : List Step) (ending : Ending) :
    v.seek follow links here ⟨.up :: rest, ending⟩ = v.seek follow links here.dropLast ⟨rest, ending⟩ := by
  cases links with
  | zero => rfl
  | succ links => rfl

/-- What is done at a name that fits. -/
theorem seek_into (hshort : ¬ nameLimit < name.utf8ByteSize) :
    v.seek follow links here ⟨.into name :: rest, ending⟩ = Search.after (here ++ [name])
      (if v.isEnd follow rest ending (here ++ [name]) then ⟨[], .ok (.entry (here ++ [name]) (ending == .slash))⟩
      else
        match v.find? (here ++ [name]) with
        | some .directory => v.seek follow links (here ++ [name]) ⟨rest, ending⟩
        | some (.link l) => v.chase follow links (l.origin here) (l.onward rest ending)
        | some (.file _) => ⟨[], .error .notADirectory⟩
        | none => ⟨[], .error .notFound⟩) := by
  cases links with
  | zero => exact if_neg hshort
  | succ links => exact if_neg hshort

/-- The rules leave no choice. -/
theorem Seeks.eq (h : Seeks v follow links here r s) : v.seek follow links here r = s := by
  induction h with
  | @done links => cases links <;> rfl
  | up _ ih => rw [seek_up, ih]
  | @long links _ _ _ _ hlong => cases links <;> exact if_pos hlong
  | arrive hshort hend =>
    rw [seek_into hshort, if_pos hend]
    rfl
  | directory hshort hend hfind _ ih => rw [seek_into hshort, if_neg (Bool.eq_false_iff.mp hend), hfind, ← ih]
  | link hshort hend hfind _ ih =>
    rw [seek_into hshort, if_neg (Bool.eq_false_iff.mp hend), hfind, ← ih]
    rfl
  | exhausted hshort hend hfind | file hshort hend hfind | missing hshort hend hfind =>
    rw [seek_into hshort, if_neg (Bool.eq_false_iff.mp hend), hfind]
    rfl

-- ── What a search depends on ────────────────────────────────────────────────

/-- Whether a search ends at a place depends on what stands there. -/
theorem isEnd_congr (h : v'.find? p = v.find? p) :
    v'.isEnd follow rest ending p = v.isEnd follow rest ending p := by
  rw [isEnd, isEnd, isLink, isLink, h]

/-- A search depends on nothing but what stands at the places that it looks at. -/
theorem Seeks.congr (h : Seeks v follow links here r s) (hsame : ∀ p ∈ s.visited, v'.find? p = v.find? p) :
    Seeks v' follow links here r s := by
  induction h with
  | done => exact .done
  | up _ ih => exact .up (ih hsame)
  | long hlong => exact .long hlong
  | arrive hshort hend =>
    exact .arrive hshort ((isEnd_congr (hsame _ List.mem_cons_self)).trans hend)
  | directory hshort hend hfind _ ih =>
    have hp := hsame _ List.mem_cons_self
    exact .directory hshort ((isEnd_congr hp).trans hend) (hp.trans hfind)
      (ih fun p h => hsame p (List.mem_cons_of_mem _ h))
  | link hshort hend hfind _ ih =>
    have hp := hsame _ List.mem_cons_self
    exact .link hshort ((isEnd_congr hp).trans hend) (hp.trans hfind)
      (ih fun p h => hsame p (List.mem_cons_of_mem _ h))
  | exhausted hshort hend hfind =>
    have hp := hsame _ List.mem_cons_self
    exact .exhausted hshort ((isEnd_congr hp).trans hend) (hp.trans hfind)
  | file hshort hend hfind =>
    have hp := hsame _ List.mem_cons_self
    exact .file hshort ((isEnd_congr hp).trans hend) (hp.trans hfind)
  | missing hshort hend hfind =>
    have hp := hsame _ List.mem_cons_self
    exact .missing hshort ((isEnd_congr hp).trans hend) (hp.trans hfind)

/-- So does the search for what a text leads to. -/
theorem seeks_look (v : Volume) (follow : Bool) (hr : ofText text = .ok r) :
    Seeks v follow linkLimit [] r (v.look follow text) := by
  rw [look, hr]
  exact seeks v follow linkLimit [] r

/-- What the rules give is what a text leads to. -/
theorem look_of_seeks (hr : ofText text = .ok r) (h : Seeks v follow linkLimit [] r s) :
    v.look follow text = s := by
  rw [look, hr]
  exact h.eq

/-- What leads somewhere describes a route. -/
theorem ofText_of_found (h : (v.look follow text).found = .ok g) : ∃ r, ofText text = .ok r := by
  cases hr : ofText text with
  | ok r => exact ⟨r, rfl⟩
  | error e =>
    rw [look, hr] at h
    cases h

/-- A text leads to the same where the same stands at the places that were looked at. -/
theorem look_congr (hsame : ∀ p ∈ (v.look follow text).visited, v'.find? p = v.find? p) :
    v'.look follow text = v.look follow text := by
  cases hr : ofText text with
  | ok r => exact look_of_seeks hr ((seeks_look v follow hr).congr hsame)
  | error e => rw [look, look, hr]

/-- What is found under a name was looked at last. -/
theorem Seeks.last (h : Seeks v follow links here r s) {slash : Bool} (hfound : s.found = .ok (.entry p slash)) :
    p ∈ s.visited := by
  induction h with
  | done => cases hfound
  | up _ ih => exact ih hfound
  | arrive =>
    obtain ⟨rfl, -⟩ := Goal.entry.inj (Except.ok.inj hfound)
    exact List.mem_singleton_self _
  | directory _ _ _ _ ih | link _ _ _ _ ih => exact List.mem_cons_of_mem _ (ih hfound)
  | long | exhausted | file | missing => cases hfound

-- ── New directories ─────────────────────────────────────────────────────────

/-- Nothing has changed but that there are directories where nothing was. -/
def Grows (v v' : Volume) : Prop :=
  ∀ p, v'.find? p = v.find? p ∨ v.find? p = none ∧ v'.find? p = some .directory

/-- What was there is still there. -/
theorem Grows.find? (h : Grows v v') {e : Entry} (hfind : v.find? p = some e) : v'.find? p = some e := by
  rcases h p with hsame | ⟨hnone, -⟩
  · exact hsame.trans hfind
  · cases hnone.symm.trans hfind

/-- No link has come or gone. -/
theorem Grows.isLink (h : Grows v v') (p : Path) : v'.isLink p = v.isLink p := by
  rcases h p with hsame | ⟨hnone, hmade⟩
  · rw [Volume.isLink, Volume.isLink, hsame]
  · rw [Volume.isLink, Volume.isLink, hnone, hmade]

/-- What is found is still found when there are new directories. -/
theorem Seeks.grow (h : Seeks v follow links here r s) (hgrows : Grows v v') (hok : s.found = .ok g) :
    Seeks v' follow links here r s := by
  have hend' : ∀ {rest : List Step} {ending : Ending} {p : Path} {b : Bool},
      v.isEnd follow rest ending p = b → v'.isEnd follow rest ending p = b := by
    intro rest ending p b hb
    rw [isEnd, hgrows.isLink]
    exact hb
  induction h with
  | done => exact .done
  | up _ ih => exact .up (ih hok)
  | arrive hshort hend => exact .arrive hshort (hend' hend)
  | directory hshort hend hfind _ ih => exact .directory hshort (hend' hend) (hgrows.find? hfind) (ih hok)
  | link hshort hend hfind _ ih => exact .link hshort (hend' hend) (hgrows.find? hfind) (ih hok)
  | long | exhausted | file | missing => cases hok

-- ── Walks ───────────────────────────────────────────────────────────────────

/-- A walk gets through to a directory, with so many links left, on a trail of places. -/
inductive Walks (v : Volume) : Nat → Path → List Step → Nat → Path → List Path → Prop where
  | done {links : Nat} {here : Path} : Walks v links here [] links here []
  | up {links left : Nat} {here there : Path} {rest : List Step} {trail : List Path}
      (h : Walks v links here.dropLast rest left there trail) :
      Walks v links here (.up :: rest) left there trail
  | directory {links left : Nat} {here there : Path} {name : String} {rest : List Step} {trail : List Path}
      (hshort : ¬ nameLimit < name.utf8ByteSize) (hfind : v.find? (here ++ [name]) = some .directory)
      (h : Walks v links (here ++ [name]) rest left there trail) :
      Walks v links here (.into name :: rest) left there ((here ++ [name]) :: trail)
  | link {links left : Nat} {here there : Path} {name : String} {rest : List Step} {trail : List Path} {l : Link}
      (hshort : ¬ nameLimit < name.utf8ByteSize) (hfind : v.find? (here ++ [name]) = some (.link l))
      (h : Walks v links (l.origin here) (l.route.steps ++ rest) left there trail) :
      Walks v (links + 1) here (.into name :: rest) left there ((here ++ [name]) :: trail)

/-- A search does not end where steps come behind. -/
theorem isEnd_of_ne_nil (h : rest ≠ []) : v.isEnd follow rest ending p = false := by
  cases rest with
  | nil => exact absurd rfl h
  | cons step rest => rfl

/-- Where steps come behind a link, how its own route ends does not matter. -/
theorem onward_of_ne_nil (h : rest ≠ []) : l.onward rest ending = ⟨l.route.steps ++ rest, ending⟩ := by
  rw [Link.onward, if_neg fun hboth => h hboth.1]

/-- On the trail of a walk there are only directories and links. -/
theorem Walks.on_trail (h : Walks v links here steps left there trail) (hp : p ∈ trail) :
    v.find? p = some .directory ∨ v.isLink p = true := by
  induction h with
  | done => cases hp
  | up _ ih => exact ih hp
  | directory _ hfind _ ih =>
    rcases List.mem_cons.mp hp with rfl | hp
    · exact Or.inl hfind
    · exact ih hp
  | link _ hfind _ ih =>
    rcases List.mem_cons.mp hp with rfl | hp
    · refine Or.inr ?_
      rw [isLink, hfind]
    · exact ih hp

/-- A walk depends on what stands on its trail. -/
theorem Walks.congr (h : Walks v links here steps left there trail)
    (hsame : ∀ p ∈ trail, v'.find? p = v.find? p) : Walks v' links here steps left there trail := by
  induction h with
  | done => exact .done
  | up _ ih => exact .up (ih hsame)
  | directory hshort hfind _ ih =>
    exact .directory hshort ((hsame _ List.mem_cons_self).trans hfind)
      (ih fun p hp => hsame p (List.mem_cons_of_mem _ hp))
  | link hshort hfind _ ih =>
    exact .link hshort ((hsame _ List.mem_cons_self).trans hfind)
      (ih fun p hp => hsame p (List.mem_cons_of_mem _ hp))

/-- From the end of a walk a search goes on with the links that are left. -/
theorem Walks.seeks (h : Walks v links here steps left there trail) (hmore : more ≠ [])
    (hs : Seeks v follow left there ⟨more, ending⟩ s) :
    Seeks v follow links here ⟨steps ++ more, ending⟩ ⟨trail ++ s.visited, s.found⟩ := by
  have hne : ∀ rest : List Step, rest ++ more ≠ [] := fun rest => List.append_ne_nil_of_right_ne_nil rest hmore
  induction h with
  | done => exact hs
  | up _ ih => exact .up (ih hs)
  | directory hshort hfind _ ih => exact .directory hshort (isEnd_of_ne_nil (hne _)) hfind (ih hs)
  | link hshort hfind _ ih =>
    have hs := ih hs
    rw [List.append_assoc, ← onward_of_ne_nil (hne _)] at hs
    exact .link hshort (isEnd_of_ne_nil (hne _)) hfind hs

/-- A search that finds something has walked as far as one likes. -/
theorem Seeks.walks (h : Seeks v follow links here r s) (hr : r = ⟨steps ++ more, ending⟩) (hmore : more ≠ [])
    (hok : s.found = .ok g) :
    ∃ left there trail s', Walks v links here steps left there trail ∧
      Seeks v follow left there ⟨more, ending⟩ s' ∧ s = ⟨trail ++ s'.visited, s'.found⟩ := by
  have hne : ∀ rest : List Step, rest ++ more ≠ [] := fun rest => List.append_ne_nil_of_right_ne_nil rest hmore
  induction h generalizing steps with
  | done =>
    obtain ⟨hsteps, -⟩ := Route.mk.inj hr
    exact absurd hsteps.symm (hne steps)
  | up h ih =>
    obtain ⟨hsteps, rfl⟩ := Route.mk.inj hr
    cases steps with
    | nil =>
      obtain rfl := hsteps
      exact ⟨_, _, [], _, .done, .up h, rfl⟩
    | cons step steps =>
      rw [List.cons_append] at hsteps
      obtain ⟨rfl, rfl⟩ := List.cons.inj hsteps
      obtain ⟨left, there, trail, s', hwalk, hseeks, hs⟩ := ih rfl hok
      exact ⟨left, there, trail, s', .up hwalk, hseeks, hs⟩
  | arrive hshort hend =>
    obtain ⟨hsteps, rfl⟩ := Route.mk.inj hr
    cases steps with
    | nil =>
      obtain rfl := hsteps
      exact ⟨_, _, [], _, .done, .arrive hshort hend, rfl⟩
    | cons step steps =>
      rw [List.cons_append] at hsteps
      obtain ⟨rfl, rfl⟩ := List.cons.inj hsteps
      cases (isEnd_of_ne_nil (hne steps)).symm.trans hend
  | directory hshort hend hfind h ih =>
    obtain ⟨hsteps, rfl⟩ := Route.mk.inj hr
    cases steps with
    | nil =>
      obtain rfl := hsteps
      exact ⟨_, _, [], _, .done, .directory hshort hend hfind h, rfl⟩
    | cons step steps =>
      rw [List.cons_append] at hsteps
      obtain ⟨rfl, rfl⟩ := List.cons.inj hsteps
      obtain ⟨left, there, trail, s', hwalk, hseeks, rfl⟩ := ih rfl hok
      exact ⟨left, there, _, s', .directory hshort hfind hwalk, hseeks, rfl⟩
  | link hshort hend hfind h ih =>
    obtain ⟨hsteps, rfl⟩ := Route.mk.inj hr
    cases steps with
    | nil =>
      obtain rfl := hsteps
      exact ⟨_, _, [], _, .done, .link hshort hend hfind h, rfl⟩
    | cons step steps =>
      rw [List.cons_append] at hsteps
      obtain ⟨rfl, rfl⟩ := List.cons.inj hsteps
      obtain ⟨left, there, trail, s', hwalk, hseeks, rfl⟩ :=
        ih (by rw [onward_of_ne_nil (hne steps), List.append_assoc]) hok
      exact ⟨left, there, _, s', .link hshort hfind hwalk, hseeks, rfl⟩
  | long | exhausted | file | missing => cases hok

/-- A search that only has the steps of a walk looks at places on the trail. -/
theorem Walks.visited (h : Walks v links here steps left there trail)
    (hs : Seeks v follow links here ⟨steps, ending⟩ s) : s.visited ⊆ trail := by
  induction h generalizing ending s with
  | done =>
    cases hs
    exact List.Subset.refl _
  | up _ ih =>
    cases hs with
    | up hs => exact ih hs
  | directory hshort hfind _ ih =>
    cases hs with
    | long hlong => exact absurd hlong hshort
    | directory _ _ _ hs => exact List.cons_subset_cons _ (ih hs)
    | link _ _ hlink => cases hfind.symm.trans hlink
    | arrive | exhausted | file | missing => exact List.cons_subset_cons _ (List.nil_subset _)
  | link hshort hfind _ ih =>
    cases hs with
    | long hlong => exact absurd hlong hshort
    | directory _ _ hdirectory => cases hfind.symm.trans hdirectory
    | link _ _ hlink hs =>
      obtain rfl := Entry.link.inj (Option.some.inj (hfind.symm.trans hlink))
      exact List.cons_subset_cons _ (ih hs)
    | arrive | file | missing => exact List.cons_subset_cons _ (List.nil_subset _)

/-- Where a search ends at nothing, no search gets further. -/
theorem Seeks.gap (h : Seeks v false links here r s) {slash : Bool} (hfound : s.found = .ok (.entry p slash))
    (hnone : v.find? p = none) (hmore : more ≠ []) (follow : Bool) (ending : Ending) :
    ∃ s', Seeks v follow links here ⟨r.steps ++ more, ending⟩ s' ∧ s'.found = .error .notFound := by
  have hne : ∀ rest : List Step, rest ++ more ≠ [] := fun rest => List.append_ne_nil_of_right_ne_nil rest hmore
  induction h with
  | done => cases hfound
  | up _ ih =>
    obtain ⟨s', hs', hgap⟩ := ih hfound
    exact ⟨s', .up hs', hgap⟩
  | arrive hshort =>
    obtain ⟨rfl, -⟩ := Goal.entry.inj (Except.ok.inj hfound)
    exact ⟨_, .missing hshort (isEnd_of_ne_nil (hne _)) hnone, rfl⟩
  | directory hshort _ hfind _ ih =>
    obtain ⟨s', hs', hgap⟩ := ih hfound
    exact ⟨_, .directory hshort (isEnd_of_ne_nil (hne _)) hfind hs', hgap⟩
  | link hshort _ hfind _ ih =>
    obtain ⟨s', hs', hgap⟩ := ih hfound
    rw [Link.onward, List.append_assoc, ← onward_of_ne_nil (hne _)] at hs'
    exact ⟨_, .link hshort (isEnd_of_ne_nil (hne _)) hfind hs', hgap⟩
  | long | exhausted | file | missing => cases hfound

-- ── Names ───────────────────────────────────────────────────────────────────

/-- A text is the name of a place: there is a way to the directory, and the name fits. -/
inductive Names (v : Volume) (text : String) : Path → List Path → Prop where
  | intro {way : List Step} {name : String} {left : Nat} {there : Path} {trail : List Path}
      (hroute : ofText text = .ok ⟨way ++ [.into name], .nothing⟩)
      (hwalk : Walks v linkLimit [] way left there trail) (hshort : ¬ nameLimit < name.utf8ByteSize) :
      Names v text (there ++ [name]) trail

/-- The place of which a text is the name. -/
def place? (v : Volume) (text : String) : Option Path :=
  match (v.look false text).found with
  | .ok (.entry p false) => some p
  | _ => none

/-- What a search for a name finds that does not go on. -/
theorem Names.look (h : Names v text p trail) (follow : Bool) (hstop : (follow && v.isLink p) = false) :
    v.look follow text = ⟨trail ++ [p], .ok (.entry p false)⟩ := by
  cases h with
  | intro hroute hwalk hshort =>
    refine look_of_seeks hroute (hwalk.seeks (List.cons_ne_nil _ _) (.arrive hshort ?_))
    rw [isEnd, hstop]
    rfl

/-- So does the way to a name. -/
theorem Names.congr (h : Names v text p trail) (hsame : ∀ p ∈ trail, v'.find? p = v.find? p) :
    Names v' text p trail := by
  cases h with
  | intro hroute hwalk hshort => exact .intro hroute (hwalk.congr hsame) hshort

/-- The way to a name goes through directories and links. -/
theorem Names.on_trail (h : Names v text p trail) (hq : q ∈ trail) :
    v.find? q = some .directory ∨ v.isLink q = true := by
  cases h with
  | intro _ hwalk _ => exact hwalk.on_trail hq

/-- A name leads to its place. -/
theorem Names.place? (h : Names v text p trail) : v.place? text = some p := by
  rw [Volume.place?, h.look false rfl]

/-- A search for a route with a name at its end finds its way to the name. -/
theorem names_of_look {way : List Step} (hroute : ofText text = .ok ⟨way ++ [.into name], .nothing⟩)
    (hok : (v.look follow text).found = .ok g) : ∃ p trail, Names v text p trail := by
  obtain ⟨left, there, trail, s', hwalk, hseeks, hs⟩ :=
    (seeks_look v follow hroute).walks rfl (List.cons_ne_nil _ _) hok
  have hok' : s'.found = .ok g := by
    rw [hs] at hok
    exact hok
  refine ⟨_, trail, .intro hroute hwalk ?_⟩
  intro hlong
  cases hseeks with
  | long => cases hok'
  | arrive hshort | directory hshort | link hshort | exhausted hshort | file hshort | missing hshort =>
    exact hshort hlong

/-- What is found without following a link has the name with which the route ends. -/
theorem Seeks.ends (h : Seeks v false links here r s) {slash : Bool} (hfound : s.found = .ok (.entry p slash)) :
    (∃ way name, r.steps = way ++ [.into name]) ∧ r.ending ≠ .fullStop ∧ slash = (r.ending == .slash) := by
  induction h with
  | done => cases hfound
  | up _ ih =>
    obtain ⟨⟨way, name, hsteps⟩, hending⟩ := ih hfound
    exact ⟨⟨.up :: way, name, congrArg (List.cons _) hsteps⟩, hending⟩
  | @arrive _ _ name rest ending _ hend =>
    obtain ⟨-, rfl⟩ := Goal.entry.inj (Except.ok.inj hfound)
    simp only [isEnd, Bool.false_and, Bool.not_false, Bool.and_true, Bool.and_eq_true, List.isEmpty_iff,
      bne_iff_ne] at hend
    obtain ⟨rfl, hending⟩ := hend
    exact ⟨⟨[], name, rfl⟩, hending, rfl⟩
  | @directory _ _ first _ _ _ _ _ _ _ ih =>
    obtain ⟨⟨way, name, hsteps⟩, hending⟩ := ih hfound
    exact ⟨⟨.into first :: way, name, congrArg (List.cons _) hsteps⟩, hending⟩
  | @link _ _ first rest ending _ l _ hend _ _ ih =>
    obtain ⟨⟨way, name, hsteps⟩, hending⟩ := ih hfound
    -- a link at the end is not followed unless a full stop comes behind it
    have hne : rest ≠ [] := by
      rintro rfl
      simp only [isEnd, Bool.false_and, Bool.not_false, Bool.and_true, List.isEmpty_nil, Bool.true_and,
        bne_eq_false_iff_eq] at hend
      rw [Link.onward, hend] at hending
      exact hending.1 rfl
    rw [onward_of_ne_nil hne] at hsteps hending
    obtain ⟨front, last, rfl⟩ := (List.eq_nil_or_concat rest).resolve_left hne
    rw [List.concat_eq_append, ← List.append_assoc] at hsteps
    obtain ⟨-, hlast⟩ := List.append_inj' hsteps rfl
    refine ⟨⟨.into first :: front, name, ?_⟩, hending⟩
    rw [List.concat_eq_append, hlast]
    rfl
  | long | exhausted | file | missing => cases hfound

/-- The place of a name is what is found without following a link at the end. -/
theorem place?_eq_some : v.place? text = some p ↔ (v.look false text).found = .ok (.entry p false) := by
  rw [place?]
  split
  next found hfound => rw [hfound, Option.some.injEq, Except.ok.injEq, Goal.entry.injEq, eq_self_iff_true, and_true]
  next hno =>
    constructor
    · intro h
      cases h
    · intro h
      exact absurd h (hno p)

/-- A text that leads to a name without a link at the end followed is the name of the place. -/
theorem names_of_place? (h : v.place? text = some p) : ∃ trail, Names v text p trail := by
  have hfound := place?_eq_some.mp h
  obtain ⟨r, hr⟩ := ofText_of_found hfound
  obtain ⟨⟨way, name, hsteps⟩, hstop, hslash⟩ := (seeks_look v false hr).ends hfound
  have hroute : r = ⟨way ++ [.into name], .nothing⟩ := by
    obtain ⟨steps, ending⟩ := r
    obtain rfl := hsteps
    cases ending with
    | nothing => rfl
    | slash => cases hslash
    | fullStop => exact absurd rfl hstop
  obtain ⟨q, trail, hnames⟩ := names_of_look (hr.trans (congrArg _ hroute)) hfound
  obtain rfl := Option.some.inj (hnames.place?.symm.trans h)
  exact ⟨trail, hnames⟩

end Volume

end MetricDepot
