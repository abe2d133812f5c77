import MetricDepot.Toml.Scanner
/-!
# Scans — what a scanner takes, step by step

    What a scanner does is told by equations: it takes a value off what remains and leaves the
    rest, or it fails and the next alternative starts from the same place.  A repetition is
    told by a run, `Runs item s xs rest`: from `s` the items `xs` are taken one by one until
    nothing but `rest` remains and no item can be taken off it.
-/

namespace MetricDepot.Toml

variable {α β : Type} {p q : Scanner α} {s rest : List Char} {x : α}

-- ── One step after another ──────────────────────────────────────────────────

/-- The second of two scanners goes on where the first has stopped. -/
theorem bind_of_some {next : α → Scanner β} (h : p s = some (x, rest)) : (p >>= next) s = next x rest := by
  show (p s >>= fun step => next step.1 step.2) = _
  rw [h]
  rfl

/-- Where the first fails, both do. -/
theorem bind_of_none {next : α → Scanner β} (h : p s = none) : (p >>= next) s = none := by
  show (p s >>= fun step => next step.1 step.2) = _
  rw [h]
  rfl

/-- To change what a scanner gives changes nothing of what it takes. -/
theorem map_of_some (f : α → β) (h : p s = some (x, rest)) : (f <$> p) s = some (f x, rest) := by
  show (p s >>= fun step => some (f step.1, step.2)) = _
  rw [h]
  rfl

/-- What has failed is not changed. -/
theorem map_of_none (f : α → β) (h : p s = none) : (f <$> p) s = none := by
  show (p s >>= fun step => some (f step.1, step.2)) = _
  rw [h]
  rfl

/-- Of two alternatives the first counts if it succeeds. -/
theorem orElse_of_some (h : p s = some (x, rest)) : (p <|> q) s = some (x, rest) := by
  show (p s <|> q s) = _
  rw [h]
  rfl

/-- If it fails, the second starts from the same place. -/
theorem orElse_of_none (h : p s = none) : (p <|> q) s = q s := by
  show (p s <|> q s) = _
  rw [h]
  rfl

/-- A scanner whose value is not wanted takes the same. -/
theorem discard_of_some (h : p s = some (x, rest)) : discard p s = some ((), rest) := map_of_some _ h

/-- It fails alike. -/
theorem discard_of_none (h : p s = none) : discard p s = none := map_of_none _ h

/-- What is optional is taken where it stands. -/
theorem optional_of_some (h : p s = some (x, rest)) : optional p s = some (some x, rest) :=
  orElse_of_some (map_of_some some h)

/-- Where it does not stand, nothing is taken. -/
theorem optional_of_none (h : p s = none) : optional p s = some (none, s) :=
  orElse_of_none (map_of_none some h)

-- ── The next character ──────────────────────────────────────────────────────

/-- The next character is no other one. -/
theorem head?_ne {c d : Char} (h : c ≠ d) (s : List Char) : (c :: s).head? ≠ some d :=
  fun hd => h (Option.some.inj hd)

/-- What holds of the next character holds of whatever comes next. -/
theorem of_head? {P : Char → Prop} {c : Char} (h : P c) (s : List Char) : ∀ d, (c :: s).head? = some d → P d := by
  intro d hd
  obtain rfl := Option.some.inj hd
  exact h

/-- A character of a class is none from outside of it. -/
theorem ne_of_class {f : Char → Bool} {c d : Char} (h : f c = true) (hd : f d = false) : c ≠ d := by
  rintro rfl
  cases h.symm.trans hd

-- ── Single characters ───────────────────────────────────────────────────────

/-- A character of a class is taken. -/
theorem satisfy_cons {f : Char → Bool} {c : Char} (h : f c = true) (s : List Char) :
    satisfy f (c :: s) = some (c, s) := if_pos h

/-- At the end, or in front of a character outside of the class, nothing is taken. -/
theorem satisfy_of_false {f : Char → Bool} (h : ∀ c, s.head? = some c → f c = false) :
    satisfy f s = none := by
  cases s with
  | nil => rfl
  | cons c s =>
    refine if_neg ?_
    rw [h c rfl]
    exact Bool.false_ne_true

/-- The same of a next character that is known. -/
theorem satisfy_of_head {f : Char → Bool} {c : Char} (hs : s.head? = some c) (h : f c = false) :
    satisfy f s = none := by
  refine satisfy_of_false fun d hd => ?_
  obtain rfl := Option.some.inj (hs.symm.trans hd)
  exact h

/-- A character is taken where it stands. -/
theorem char_cons (c : Char) (s : List Char) : char c (c :: s) = some ((), s) :=
  discard_of_some (satisfy_cons (beq_self_eq_true c) s)

/-- It is not taken where another one stands, or none. -/
theorem char_of_ne {c : Char} (h : s.head? ≠ some c) : char c s = none := by
  refine discard_of_none (satisfy_of_false fun d hd => ?_)
  refine beq_eq_false_iff_ne.mpr ?_
  rintro rfl
  exact h hd

/-- All characters of a class are taken, and no more. -/
theorem allOf_append {f : Char → Bool} {cs : List Char} (h : ∀ c ∈ cs, f c = true)
    (hrest : ∀ c, rest.head? = some c → f c = false) : allOf f (cs ++ rest) = some (cs, rest) := by
  rw [allOf, List.takeWhile_append_of_pos h, List.dropWhile_append_of_pos h]
  cases rest with
  | nil => simp
  | cons c rest =>
    have hc : ¬ f c = true := by
      rw [hrest c rfl]
      exact Bool.false_ne_true
    rw [List.takeWhile_cons_of_neg hc, List.dropWhile_cons_of_neg hc, List.append_nil]

/-- As many of one character are taken as are asked for, and no more. -/
theorem exactly_replicate (c : Char) (n : Nat) (rest : List Char) :
    exactly (char c) n (List.replicate n c ++ rest) = some (List.replicate n (), rest) := by
  induction n with
  | zero => rfl
  | succ n ih =>
    rw [exactly, List.replicate_succ, List.cons_append, bind_of_some (char_cons c _), bind_of_some ih]
    rfl

-- ── Repetition ──────────────────────────────────────────────────────────────

/-- Items are taken one by one, each off a shorter text, until none can be taken. -/
inductive Runs (item : Scanner α) : List Char → List α → List Char → Prop where
  | done {s : List Char} (h : item s = none) : Runs item s [] s
  | step {s s' rest : List Char} {x : α} {xs : List α} (h : item s = some (x, s'))
      (hless : s'.length < s.length) (hrest : Runs item s' xs rest) : Runs item s (x :: xs) rest

/-- A repetition with fuel for every character takes the items of its run. -/
theorem itemsFor_of_runs {item : Scanner α} {xs : List α} (h : Runs item s xs rest) {fuel : Nat}
    (hfuel : s.length ≤ fuel) : itemsFor item fuel s = some (xs, rest) := by
  induction h generalizing fuel with
  | done h =>
    cases fuel with
    | zero => rfl
    | succ fuel =>
      rw [itemsFor]
      dsimp only
      rw [h]
  | step h hless _ ih =>
    cases fuel with
    | zero => omega
    | succ fuel =>
      rw [itemsFor]
      dsimp only
      rw [h]
      dsimp only
      rw [ih (by omega)]
      rfl

/-- **A repetition takes the items of its run.** -/
theorem many_of_runs {item : Scanner α} {xs : List α} (h : Runs item s xs rest) :
    many item s = some (xs, rest) := itemsFor_of_runs h (Nat.le_refl _)

/-- A single item without a separator behind it. -/
theorem separated_of_one {item : Scanner α} {separator : Char} (h : item s = some (x, rest))
    (hrest : rest.head? ≠ some separator) : separated item separator s = some ([x], rest) := by
  have hnone : Runs (do char separator; item) rest [] rest := .done (bind_of_none (char_of_ne hrest))
  rw [separated, bind_of_some h, bind_of_some (many_of_runs hnone)]
  rfl

-- ── Blanks and lines ────────────────────────────────────────────────────────

/-- Where no blank stands none is taken. -/
theorem blanks_of_none (h : ∀ c, s.head? = some c → isBlank c = false) : blanks s = some ((), s) := by
  have htaken : allOf isBlank ([] ++ s) = some ([], s) := allOf_append (fun _ hc => nomatch hc) h
  exact discard_of_some htaken

/-- A line feed ends a line. -/
theorem newline_lineFeed (s : List Char) : newline (lineFeed :: s) = some ((), s) :=
  orElse_of_some (char_cons lineFeed s)

/-- Neither of the two characters that may end a line stands here. -/
theorem newline_of_ne (hfeed : s.head? ≠ some lineFeed) (hreturn : s.head? ≠ some carriageReturn) :
    newline s = none :=
  (orElse_of_none (char_of_ne hfeed)).trans (bind_of_none (char_of_ne hreturn))

/-- Nothing else may stand behind an expression than the end of its line. -/
theorem lineRest_lineFeed (s : List Char) : lineRest (lineFeed :: s) = some ((), s) := by
  have hblank : ∀ c, (lineFeed :: s).head? = some c → isBlank c = false := of_head? (by decide) s
  have hcomment : comment (lineFeed :: s) = none := bind_of_none (char_of_ne (head?_ne (by decide) s))
  have hend : lineEnd (lineFeed :: s) = some ((), s) := newline_lineFeed s
  rw [lineRest, bind_of_some (blanks_of_none hblank),
    bind_of_some (discard_of_some (optional_of_none hcomment)), hend]

end MetricDepot.Toml
