import MetricDepot.Proofs.Toml.Spellings
/-!
# Long strings — texts over several lines

    Over several lines the quotes need care, since a run of them is one piece, and three of them
    close the string: `Inside mark piece run cs text` says that `text` stands for `cs` where `run`
    marks stand in front of both, and never lets a run grow to three.  What stands so inside the
    marks is read back (`longString_longText`), and both the basic and the literal form do.
-/

namespace MetricDepot.Toml

variable {c mark : Char} {cs text rest s : List Char}

-- ── Runs of marks ───────────────────────────────────────────────────────────

/-- A run of marks is as long as there are marks. -/
theorem runLength_replicate (n : Nat) (h : rest.head? ≠ some mark) :
    runLength mark (List.replicate n mark ++ rest) = n := by
  have htaken : allOf (· == mark) (List.replicate n mark ++ rest) = some (List.replicate n mark, rest) := by
    refine allOf_append (fun c hc => ?_) (fun c hc => ?_)
    · rw [List.eq_of_mem_replicate hc]
      exact beq_self_eq_true mark
    · refine beq_eq_false_iff_ne.mpr ?_
      rintro rfl
      exact h hc
  have hmarks := (Prod.mk.inj (Option.some.inj htaken)).1
  rw [runLength, hmarks, List.length_replicate]

/-- One more mark makes it longer by one. -/
theorem runLength_mark (mark : Char) (s : List Char) : runLength mark (mark :: s) = runLength mark s + 1 := by
  have hmark : (mark == mark) = true := beq_self_eq_true mark
  rw [runLength, List.takeWhile_cons, if_pos hmark, List.length_cons, runLength]

/-- Where no mark stands the run is empty. -/
theorem runLength_of_ne (h : s.head? ≠ some mark) : runLength mark s = 0 := runLength_replicate 0 h

/-- Behind the marks is the rest. -/
theorem drop_marks (n : Nat) : (List.replicate n mark ++ rest).drop n = rest :=
  List.drop_left' List.length_replicate

/-- A mark behind marks is one more of them. -/
theorem marks_append_mark (n : Nat) (mark : Char) (s : List Char) :
    List.replicate n mark ++ mark :: s = List.replicate (n + 1) mark ++ s := by
  rw [List.replicate_succ', List.append_assoc, List.singleton_append]

/-- One mark or two are taken as text. -/
theorem fewMarks_replicate {n : Nat} (hn : n = 1 ∨ n = 2) (h : rest.head? ≠ some mark) :
    fewMarks mark (List.replicate n mark ++ rest) = some (List.replicate n mark, rest) := by
  rw [fewMarks, runLength_replicate n h, if_pos hn, drop_marks]

/-- Three marks or more are not taken as text. -/
theorem fewMarks_of_many {n : Nat} (hn : 3 ≤ n) (h : rest.head? ≠ some mark) :
    fewMarks mark (List.replicate n mark ++ rest) = none := by
  rw [fewMarks, runLength_replicate n h, if_neg (by omega)]

/-- Up to two marks in front of the closing three belong to the text. -/
theorem closingMarks_replicate {n : Nat} (hn : n ≤ 2) (h : rest.head? ≠ some mark) :
    closingMarks mark (List.replicate (n + 3) mark ++ rest) = some (List.replicate n mark, rest) := by
  have hmin : min 5 (n + 3) = n + 3 := by omega
  rw [closingMarks, runLength_replicate (n + 3) h, hmin, if_pos (Nat.le_add_left 3 n), drop_marks, Nat.add_sub_cancel]

/-- Too few marks in front open no text over several lines. -/
theorem exactly_of_few {n : Nat} (h : runLength mark s < n) : exactly (char mark) n s = none := by
  induction n generalizing s with
  | zero => omega
  | succ n ih =>
    cases s with
    | nil => rfl
    | cons c s =>
      by_cases hc : c = mark
      · subst hc
        have hless : runLength c s < n := by
          rw [runLength_mark] at h
          exact Nat.lt_of_succ_lt_succ h
        rw [exactly, bind_of_some (char_cons c s), bind_of_none (ih hless)]
      · rw [exactly, bind_of_none (char_of_ne (head?_ne hc s))]

-- ── Strings over several lines ──────────────────────────────────────────────

/-- A line feed is taken as text. -/
theorem lineBreak_lineFeed (s : List Char) : lineBreak (lineFeed :: s) = some ([lineFeed], s) := by
  rw [lineBreak, bind_of_some (newline_lineFeed s)]
  rfl

/-- A mark is no line break. -/
theorem lineBreak_of_mark (hmark : mark ≠ lineFeed ∧ mark ≠ carriageReturn) (h : s.head? = some mark) :
    lineBreak s = none := by
  refine bind_of_none (newline_of_ne ?_ ?_)
  · rw [h]
    exact fun hc => hmark.1 (Option.some.inj hc)
  · rw [h]
    exact fun hc => hmark.2 (Option.some.inj hc)

/-- The text stands for the character, and is taken by one piece. -/
structure Takes (mark : Char) (piece : Scanner (List Char)) (c : Char) (text : List Char) : Prop where
  opens : ∃ b tail, text = b :: tail ∧ b ≠ mark ∧ b ≠ carriageReturn ∧ (b = lineFeed → c = lineFeed)
  takes : ∀ rest, piece (text ++ rest) = some ([c], rest)

/-- Marks are taken one or two at a time, and not where there are more in a row. -/
structure TakesMarks (mark : Char) (piece : Scanner (List Char)) : Prop where
  solid : mark ≠ lineFeed ∧ mark ≠ carriageReturn
  few : ∀ {n : Nat} {rest : List Char}, n = 1 ∨ n = 2 → rest.head? ≠ some mark →
    piece (List.replicate n mark ++ rest) = some (List.replicate n mark, rest)
  many : ∀ {n : Nat} {rest : List Char}, 3 ≤ n → rest.head? ≠ some mark →
    piece (List.replicate n mark ++ rest) = none

/-- What stands between the marks. `run` counts the marks in front, which are never three. -/
inductive Inside (mark : Char) (piece : Scanner (List Char)) : (run : Nat) → List Char → List Char → Prop where
  | done {run : Nat} (hrun : run ≤ 2) : Inside mark piece run [] []
  | mark {run : Nat} {cs text : List Char} (hrun : run < 2) (h : Inside mark piece (run + 1) cs text) :
      Inside mark piece run (mark :: cs) (mark :: text)
  | other {run : Nat} {c : Char} {cs front text : List Char} (hrun : run ≤ 2)
      (hfront : Takes mark piece c front) (h : Inside mark piece 0 cs text) :
      Inside mark piece run (c :: cs) (front ++ text)

variable {piece : Scanner (List Char)}

/-- The marks in front of something else are a piece, if there are any. -/
theorem runs_marks (hpiece : TakesMarks mark piece) {run : Nat} (hrun : run ≤ 2) {pieces : List (List Char)}
    (hs : s.head? ≠ some mark) (h : Runs piece s pieces rest) :
    ∃ pieces', Runs piece (List.replicate run mark ++ s) pieces' rest ∧
      pieces'.flatten = List.replicate run mark ++ pieces.flatten := by
  rcases Nat.eq_zero_or_pos run with rfl | hpos
  · exact ⟨pieces, h, rfl⟩
  · refine ⟨List.replicate run mark :: pieces, .step (hpiece.few (by omega) hs) ?_ h, rfl⟩
    rw [List.length_append, List.length_replicate]
    omega

/-- The pieces inside the marks, and the marks of the text that stand before the closing ones. -/
theorem runs_inside (hpiece : TakesMarks mark piece) {run : Nat} (h : Inside mark piece run cs text)
    (hrest : rest.head? ≠ some mark) :
    ∃ pieces last, Runs piece (List.replicate run mark ++ (text ++ (List.replicate 3 mark ++ rest))) pieces
        (List.replicate (last + 3) mark ++ rest) ∧ last ≤ 2 ∧
      pieces.flatten ++ List.replicate last mark = List.replicate run mark ++ cs := by
  induction h with
  | @done run hrun =>
    have hmarks : List.replicate run mark ++ ([] ++ (List.replicate 3 mark ++ rest))
        = List.replicate (run + 3) mark ++ rest := by
      rw [List.nil_append, ← List.append_assoc, List.replicate_append_replicate]
    refine ⟨[], run, ?_, hrun, ?_⟩
    · rw [hmarks]
      exact .done (hpiece.many (Nat.le_add_left 3 run) hrest)
    · rw [List.flatten_nil, List.nil_append, List.append_nil]
  | @mark run cs text hrun h ih =>
    rw [List.cons_append, marks_append_mark, marks_append_mark]
    exact ih
  | @other run c cs front text hrun hfront h ih =>
    obtain ⟨pieces, last, hruns, hlast, hflat⟩ := ih
    obtain ⟨b, tail, rfl, hb, -, -⟩ := hfront.opens
    have hhead : (b :: tail ++ (text ++ (List.replicate 3 mark ++ rest))).head? ≠ some mark := head?_ne hb _
    have hless : (text ++ (List.replicate 3 mark ++ rest)).length
        < (b :: tail ++ (text ++ (List.replicate 3 mark ++ rest))).length := by
      generalize text ++ (List.replicate 3 mark ++ rest) = after
      rw [List.cons_append, List.length_cons, List.length_append]
      omega
    obtain ⟨pieces', hruns', hflat'⟩ := runs_marks hpiece hrun hhead (.step (hfront.takes _) hless hruns)
    refine ⟨pieces', last, ?_, hlast, ?_⟩
    · rw [List.append_assoc]
      exact hruns'
    · rw [hflat', List.flatten_cons, List.append_assoc, List.append_assoc, hflat]
      rfl

/-- Without a line feed in the text there is none in front of what stands for it. -/
theorem newline_of_inside (hpiece : TakesMarks mark piece) (h : Inside mark piece 0 cs text)
    (hcs : lineFeed ∉ cs) (rest : List Char) : newline (text ++ (List.replicate 3 mark ++ rest)) = none := by
  obtain ⟨b, tail, htext, hfeed, hreturn⟩ : ∃ b tail, text ++ (List.replicate 3 mark ++ rest) = b :: tail ∧
      b ≠ lineFeed ∧ b ≠ carriageReturn := by
    cases h with
    | done => exact ⟨mark, _, rfl, hpiece.solid⟩
    | mark => exact ⟨mark, _, rfl, hpiece.solid⟩
    | other _ hfront _ =>
      obtain ⟨b, tail, rfl, -, hreturn, hfeed⟩ := hfront.opens
      refine ⟨b, _, rfl, fun hb => hcs ?_, hreturn⟩
      rw [hfeed hb]
      exact List.mem_cons_self
  rw [htext]
  exact newline_of_ne (head?_ne hfeed tail) (head?_ne hreturn tail)

/-- **A text over several lines is read back**, however its characters stand inside the marks. -/
theorem longString_longText (hpiece : TakesMarks mark piece) (h : Inside mark piece 0 cs text)
    (hrest : rest.head? ≠ some mark) :
    longString mark piece (longText mark cs text ++ rest) = some (String.ofList cs, rest) := by
  obtain ⟨pieces, last, hruns, hlast, hflat⟩ := runs_inside hpiece h hrest
  have hpieces : many piece (text ++ (List.replicate 3 mark ++ rest)) = _ := many_of_runs hruns
  have hopening : longText mark cs text ++ rest = List.replicate 3 mark ++
      ((if cs.contains lineFeed then [lineFeed] else []) ++ (text ++ (List.replicate 3 mark ++ rest))) := by
    rw [longText, List.append_assoc, List.append_assoc, List.append_assoc]
  have hnewline : discard (optional newline) ((if cs.contains lineFeed then [lineFeed] else [])
      ++ (text ++ (List.replicate 3 mark ++ rest))) = some ((), text ++ (List.replicate 3 mark ++ rest)) := by
    split
    next => exact discard_of_some (optional_of_some (newline_lineFeed _))
    next hcs =>
      refine discard_of_some (optional_of_none (newline_of_inside hpiece h ?_ rest))
      rwa [List.contains_iff_mem] at hcs
  rw [hopening, longString, bind_of_some (discard_of_some (exactly_replicate mark 3 _)), bind_of_some hnewline,
    bind_of_some hpieces, bind_of_some (closingMarks_replicate hlast hrest), hflat]
  rfl

-- ── Basic texts over several lines ──────────────────────────────────────────

/-- A piece of a basic text over several lines. -/
def basicPiece : Scanner (List Char) :=
  (do return [← satisfy isBasic]) <|> continuation <|> (do return [← escape]) <|> lineBreak
    <|> fewMarks quote

/-- Marks begin with a mark. -/
theorem head?_marks {n : Nat} (hn : 1 ≤ n) (mark : Char) (rest : List Char) :
    (List.replicate n mark ++ rest).head? = some mark := by
  obtain ⟨k, rfl⟩ : ∃ k, n = k + 1 := ⟨n - 1, by omega⟩
  rfl

/-- A line is continued only behind a backslash. -/
theorem continuation_of_ne (h : s.head? ≠ some backslash) : continuation s = none :=
  bind_of_none (char_of_ne h)

/-- No continuation stands where an escape does. -/
theorem continuation_of_letter {letter : Char}
    (h : isBlank letter = false ∧ letter ≠ lineFeed ∧ letter ≠ carriageReturn) (s : List Char) :
    continuation (backslash :: letter :: s) = none := by
  obtain ⟨hblank, hfeed, hreturn⟩ := h
  have hblanks : blanks (letter :: s) = some ((), letter :: s) := blanks_of_none (of_head? hblank s)
  have hnewline : newline (letter :: s) = none := newline_of_ne (head?_ne hfeed s) (head?_ne hreturn s)
  rw [continuation, bind_of_some (char_cons backslash _), bind_of_some hblanks, bind_of_none hnewline]

/-- Only a run of quotes is taken where quotes stand. -/
theorem basicPiece_of_quote (h : s.head? = some quote) : basicPiece s = fewMarks quote s := by
  have hslash : s.head? ≠ some backslash := by
    rw [h]
    decide
  rw [basicPiece, orElse_of_none (bind_of_none (satisfy_of_head h (by decide))),
    orElse_of_none (continuation_of_ne hslash), orElse_of_none (bind_of_none (escape_of_ne hslash)),
    orElse_of_none (lineBreak_of_mark (by decide) h)]

/-- The pieces of a basic string take one mark or two as text, and no more. -/
theorem takesMarks_basic : TakesMarks quote basicPiece where
  solid := by decide
  few hn hrest := (basicPiece_of_quote (head?_marks (by omega) _ _)).trans (fewMarks_replicate hn hrest)
  many hn hrest := (basicPiece_of_quote (head?_marks (by omega) _ _)).trans (fewMarks_of_many hn hrest)

/-- The pieces of a basic string take every spelling as its character. -/
theorem takes_of_spelling (h : Spelling true c text) : Takes quote basicPiece c text := by
  cases h with
  | plain h =>
    refine ⟨⟨c, [], rfl, ne_of_class h (by decide), ne_of_class h (by decide), id⟩, fun rest => ?_⟩
    refine orElse_of_some ?_
    rw [List.singleton_append, bind_of_some (satisfy_cons h rest)]
    rfl
  | lineFeed _ h =>
    subst h
    refine ⟨⟨lineFeed, [], rfl, by decide, by decide, id⟩, fun rest => ?_⟩
    have hslash : (lineFeed :: rest).head? ≠ some backslash := head?_ne (by decide) rest
    rw [List.singleton_append, basicPiece, orElse_of_none (bind_of_none (satisfy_of_head rfl (by decide))),
      orElse_of_none (continuation_of_ne hslash), orElse_of_none (bind_of_none (escape_of_ne hslash))]
    exact orElse_of_some (lineBreak_lineFeed rest)
  | escaped hletter h =>
    refine ⟨⟨backslash, _, rfl, by decide, by decide, fun hb => absurd hb (by decide)⟩, fun rest => ?_⟩
    rw [basicPiece, orElse_of_none (bind_of_none (satisfy_of_head rfl (by decide))), List.cons_append,
      List.cons_append, orElse_of_none (continuation_of_letter hletter _)]
    refine orElse_of_some ?_
    rw [← List.cons_append, ← List.cons_append, bind_of_some (h rest)]
    rfl

/-- So the text that the writer makes with escapes is read piece by piece. -/
theorem inside_escapedText {run : Nat} (hrun : run ≤ 2) (cs : List Char) :
    Inside quote basicPiece run cs (escapedText true 2 run cs) := by
  induction cs generalizing run with
  | nil => exact .done hrun
  | cons c cs ih =>
    rw [escapedText]
    split
    next hquote =>
      subst hquote
      split
      next hless => exact .mark hless (ih hless)
      next => exact .other hrun (takes_of_spelling (spelling_quote true)) (ih (Nat.zero_le 2))
    next hquote => exact .other hrun (takes_of_spelling (spelling_escaped true hquote)) (ih (Nat.zero_le 2))

/-- A text that is written over several lines with escapes is read back. -/
theorem longBasicString_longBasicText (cs : List Char) (hrest : rest.head? ≠ some quote) :
    longBasicString (longBasicText cs ++ rest) = some (String.ofList cs, rest) :=
  longString_longText takesMarks_basic (inside_escapedText (Nat.zero_le 2) cs) hrest

-- ── Literal texts over several lines ────────────────────────────────────────

/-- A piece of a literal text over several lines. -/
def literalPiece : Scanner (List Char) :=
  (do return [← satisfy isLiteral]) <|> lineBreak <|> fewMarks apostrophe

/-- In a literal string an apostrophe begins a run of marks. -/
theorem literalPiece_of_apostrophe (h : s.head? = some apostrophe) :
    literalPiece s = fewMarks apostrophe s := by
  rw [literalPiece, orElse_of_none (bind_of_none (satisfy_of_head h (by decide))),
    orElse_of_none (lineBreak_of_mark (by decide) h)]

/-- The pieces of a literal string take one mark or two as text, and no more. -/
theorem takesMarks_literal : TakesMarks apostrophe literalPiece where
  solid := by decide
  few hn hrest := (literalPiece_of_apostrophe (head?_marks (by omega) _ _)).trans (fewMarks_replicate hn hrest)
  many hn hrest := (literalPiece_of_apostrophe (head?_marks (by omega) _ _)).trans (fewMarks_of_many hn hrest)

/-- The pieces of a literal string take every character that may stand there as itself. -/
theorem takes_of_literal (h : isLiteral c = true) : Takes apostrophe literalPiece c [c] := by
  refine ⟨⟨c, [], rfl, ne_of_class h (by decide), ne_of_class h (by decide), id⟩, fun rest => ?_⟩
  refine orElse_of_some ?_
  rw [List.singleton_append, bind_of_some (satisfy_cons h rest)]
  rfl

/-- The pieces of a literal string take line feeds. -/
theorem takes_lineFeed : Takes apostrophe literalPiece lineFeed [lineFeed] := by
  refine ⟨⟨lineFeed, [], rfl, by decide, by decide, id⟩, fun rest => ?_⟩
  rw [List.singleton_append, literalPiece, orElse_of_none (bind_of_none (satisfy_of_head rfl (by decide)))]
  exact orElse_of_some (lineBreak_lineFeed rest)

/-- What has no run of marks has none in its end. -/
theorem hasRun_append {front : List Char} {n : Nat} (h : hasRun mark n (front ++ cs) = false) :
    hasRun mark n cs = false := by
  induction front with
  | nil => exact h
  | cons b front ih =>
    rw [List.cons_append, hasRun, Bool.or_eq_false_iff] at h
    exact ih h.2

/-- Three marks in a row are a run of three. -/
theorem hasRun_replicate (mark : Char) (cs : List Char) :
    hasRun mark 3 (List.replicate 3 mark ++ cs) = true := by
  have hfront : (List.replicate 3 mark).isPrefixOf (List.replicate 3 mark ++ cs) = true :=
    List.isPrefixOf_iff_prefix.mpr (List.prefix_append _ _)
  rw [show List.replicate 3 mark ++ cs = mark :: mark :: mark :: cs from rfl] at hfront ⊢
  rw [hasRun, hfront]
  rfl

/-- So a text without three marks in a row is read piece by piece. -/
theorem inside_literal {run : Nat} (hrun : run ≤ 2)
    (hcs : ∀ c ∈ cs, c = lineFeed ∨ c = apostrophe ∨ isLiteral c = true)
    (hfree : hasRun apostrophe 3 (List.replicate run apostrophe ++ cs) = false) :
    Inside apostrophe literalPiece run cs cs := by
  induction cs generalizing run with
  | nil => exact .done hrun
  | cons c cs ih =>
    have htail : ∀ d ∈ cs, d = lineFeed ∨ d = apostrophe ∨ isLiteral d = true :=
      fun d hd => hcs d (List.mem_cons_of_mem c hd)
    have hafter : hasRun apostrophe 3 (List.replicate 0 apostrophe ++ cs) = false := by
      rw [← List.singleton_append (l := cs), ← List.append_assoc] at hfree
      exact hasRun_append hfree
    have hother : Takes apostrophe literalPiece c [c] → Inside apostrophe literalPiece run (c :: cs) (c :: cs) :=
      fun htakes => .other hrun htakes (ih (Nat.zero_le 2) htail hafter)
    rcases hcs c List.mem_cons_self with rfl | rfl | hliteral
    · exact hother takes_lineFeed
    · rw [marks_append_mark] at hfree
      rcases Nat.lt_or_eq_of_le hrun with hless | rfl
      · exact .mark hless (ih hless htail hfree)
      · cases (hasRun_replicate apostrophe cs).symm.trans hfree
    · exact hother (takes_of_literal hliteral)

/-- A text that is written as it is over several lines is read back. -/
theorem longLiteralString_longLiteralText
    (hcs : ∀ c ∈ cs, c = lineFeed ∨ c = apostrophe ∨ isLiteral c = true)
    (hfree : hasRun apostrophe 3 cs = false) (hrest : rest.head? ≠ some apostrophe) :
    longLiteralString (longLiteralText cs ++ rest) = some (String.ofList cs, rest) :=
  longString_longText takesMarks_literal (inside_literal (Nat.zero_le 2) hcs hfree) hrest

end MetricDepot.Toml
