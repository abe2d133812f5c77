import MetricDepot.Proofs.Toml.Scans
import MetricDepot.Toml.Text
import MetricDepot.Toml.Writer
/-!
# Spellings — how a character stands in a string

    In a basic string every character has a `Spelling`: itself, or an escape for it, and the
    writer gives every character one.  A string on one line is read back spelling by spelling;
    a literal string has no escapes, and is read back if all of its characters may stand there.
-/

namespace MetricDepot.Toml

variable {c : Char} {cs text s : List Char}

-- ── Escapes ─────────────────────────────────────────────────────────────────

/-- The digits that the writer uses are read as what they stand for. -/
theorem hexValue?_upperDigit : ∀ d, d < 16 → hexValue? (upperDigit d) = some d := by
  decide

/-- The escape of a letter stands for what the letter stands for. -/
theorem escape_letter {letter : Char} (h : letterEscape? letter = some c) (rest : List Char) :
    escape (backslash :: letter :: rest) = some (c, rest) := by
  have hother : ∀ d, letterEscape? d = none → letter ≠ d := by
    rintro d hd rfl
    cases h.symm.trans hd
  rw [escape, bind_of_some (char_cons backslash _), bind_of_some (satisfy_cons rfl rest),
    if_neg (hother 'u' (by decide)), if_neg (hother 'U' (by decide)), h]
  rfl

/-- Every escape begins with a backslash. -/
theorem escape_of_ne (h : s.head? ≠ some backslash) : escape s = none := bind_of_none (char_of_ne h)

/-- As many characters of a class are taken as are asked for. -/
theorem exactly_of_all {f : Char → Bool} (h : ∀ c ∈ cs, f c = true) (rest : List Char) :
    exactly (satisfy f) cs.length (cs ++ rest) = some (cs, rest) := by
  induction cs with
  | nil => rfl
  | cons c cs ih =>
    have htail := ih fun d hd => h d (List.mem_cons_of_mem c hd)
    rw [List.length_cons, exactly, List.cons_append, bind_of_some (satisfy_cons (h c List.mem_cons_self) _),
      bind_of_some htail]
    rfl

/-- The escape of a control character stands for it. -/
theorem escape_codeEscape (h : c.toNat < 0x20 ∨ c.toNat = 0x7F) (rest : List Char) :
    escape (codeEscape c ++ rest) = some (c, rest) := by
  have hhigh := hexValue?_upperDigit (c.toNat / 16) (by omega)
  have hlow := hexValue?_upperDigit (c.toNat % 16) (by omega)
  have hall : ∀ d ∈ ['0', '0', upperDigit (c.toNat / 16), upperDigit (c.toNat % 16)],
      (hexValue? d).isSome = true := by
    intro d hd
    simp only [List.mem_cons, List.not_mem_nil, or_false] at hd
    rcases hd with rfl | rfl | rfl | rfl
    · decide
    · decide
    · rw [hhigh]
      rfl
    · rw [hlow]
      rfl
  have hdigits : exactly (satisfy fun c => (hexValue? c).isSome) 4 _ = _ := exactly_of_all hall rest
  have hcode : (['0', '0', upperDigit (c.toNat / 16), upperDigit (c.toNat % 16)] : List Char).foldl
      (fun n c => 16 * n + (hexValue? c).getD 0) 0 = c.toNat := by
    have hzero : hexValue? '0' = some 0 := by decide
    simp only [List.foldl_cons, List.foldl_nil, hzero, hhigh, hlow, Option.getD_some]
    omega
  have hunit : escape (codeEscape c ++ rest) = codePoint 4
      (['0', '0', upperDigit (c.toNat / 16), upperDigit (c.toNat % 16)] ++ rest) := by
    rw [codeEscape, List.cons_append, List.cons_append, escape, bind_of_some (char_cons backslash _),
      bind_of_some (satisfy_cons rfl _), if_pos rfl]
  have hvalid : c.toNat.isValidChar := c.valid
  rw [hunit, codePoint, bind_of_some hdigits, hcode, if_pos hvalid, Char.ofNat_toNat]
  rfl

-- ── Spellings ───────────────────────────────────────────────────────────────

/-- How a character may stand in a basic string, on one line or over several. -/
inductive Spelling (long : Bool) (c : Char) : List Char → Prop where
  | plain (h : isBasic c = true) : Spelling long c [c]
  | lineFeed (hlong : long = true) (h : c = lineFeed) : Spelling long c [c]
  | escaped {letter : Char} {tail : List Char}
      (hletter : isBlank letter = false ∧ letter ≠ Toml.lineFeed ∧ letter ≠ carriageReturn)
      (h : ∀ rest, escape (backslash :: letter :: tail ++ rest) = some (c, rest)) :
      Spelling long c (backslash :: letter :: tail)

/-- A letter that stands for a character spells it, on one line and over several. -/
theorem spelling_letter {long : Bool} {letter : Char}
    (hletter : isBlank letter = false ∧ letter ≠ lineFeed ∧ letter ≠ carriageReturn)
    (h : letterEscape? letter = some c) : Spelling long c [backslash, letter] :=
  .escaped hletter fun rest => escape_letter h rest

/-- A quote is spelled by its escape. -/
theorem spelling_quote (long : Bool) : Spelling long quote [backslash, quote] :=
  spelling_letter (by decide) rfl

/-- Every character but the quote has the spelling that the writer gives it. -/
theorem spelling_escaped (long : Bool) (hquote : c ≠ quote) : Spelling long c (Toml.escaped long c) := by
  have hcode : ∀ {n : Nat}, c.toNat = n → c = Char.ofNat n := by
    rintro n rfl
    exact c.ofNat_toNat.symm
  rw [Toml.escaped]
  split
  next h => exact spelling_letter (by decide) (by rw [h]; rfl)
  next hslash =>
    split
    next h => exact spelling_letter (by decide) (by rw [h]; rfl)
    next htab =>
      split
      next h =>
        split
        next hlong => exact .lineFeed hlong h
        next => exact spelling_letter (by decide) (by rw [h]; rfl)
      next hfeed =>
        split
        next h => exact spelling_letter (by decide) (by rw [h]; rfl)
        next =>
          split
          next h => exact spelling_letter (by decide) (by rw [hcode h]; rfl)
          next =>
            split
            next h => exact spelling_letter (by decide) (by rw [hcode h]; rfl)
            next =>
              split
              next h => exact .escaped (by decide) fun rest => escape_codeEscape h rest
              next h =>
                refine .plain ?_
                have hplain : isPlain c = true := by
                  rw [isPlain, Bool.or_eq_true, Bool.and_eq_true, decide_eq_true_eq, decide_eq_true_eq]
                  right
                  omega
                rw [isBasic, hplain, bne_iff_ne.mpr hquote, bne_iff_ne.mpr hslash]
                rfl

/-- No spelling begins with a quote. -/
theorem opens_of_spelling {long : Bool} (h : Spelling long c text) :
    ∃ b tail, text = b :: tail ∧ b ≠ quote := by
  cases h with
  | plain h =>
    refine ⟨c, [], rfl, ?_⟩
    rintro rfl
    cases h
  | lineFeed _ h => exact ⟨c, [], rfl, h ▸ by decide⟩
  | escaped => exact ⟨backslash, _, rfl, by decide⟩

-- ── Strings on one line ─────────────────────────────────────────────────────

/-- On one line every spelling is read as its character. -/
theorem basicPiece_of_spelling (h : Spelling false c text) (rest : List Char) :
    (satisfy isBasic <|> escape) (text ++ rest) = some (c, rest) := by
  cases h with
  | plain h => exact orElse_of_some (satisfy_cons h rest)
  | lineFeed hlong => cases hlong
  | escaped hletter h =>
    exact (orElse_of_none (satisfy_of_head rfl (by decide))).trans (h rest)

/-- A spelling is not empty, so what is behind it is shorter. -/
theorem length_lt_of_spelling {long : Bool} (h : Spelling long c text) (rest : List Char) :
    rest.length < (text ++ rest).length := by
  obtain ⟨b, tail, rfl, -⟩ := opens_of_spelling h
  rw [List.length_append]
  exact Nat.lt_add_of_pos_left (Nat.succ_pos _)

/-- The text that the writer makes of some characters is read back spelling by spelling, up to
    the quote behind it. -/
theorem runs_basic (cs rest : List Char) :
    Runs (satisfy isBasic <|> escape) (escapedText false 0 0 cs ++ quote :: rest) cs (quote :: rest) := by
  induction cs with
  | nil =>
    have hclosing : satisfy isBasic (quote :: rest) = none := satisfy_of_head rfl (by decide)
    exact .done ((orElse_of_none hclosing).trans (escape_of_ne (head?_ne (by decide) rest)))
  | cons c cs ih =>
    obtain ⟨text, hspelling, htext⟩ : ∃ text, Spelling false c text ∧
        escapedText false 0 0 (c :: cs) = text ++ escapedText false 0 0 cs := by
      rw [escapedText]
      split
      next h => exact ⟨[backslash, quote], h ▸ spelling_quote false, rfl⟩
      next h => exact ⟨_, spelling_escaped false h, rfl⟩
    rw [htext, List.append_assoc]
    exact .step (basicPiece_of_spelling hspelling _) (length_lt_of_spelling hspelling _) ih

/-- A basic string on one line is read back. -/
theorem basicString_basicText (cs rest : List Char) :
    basicString (basicText cs ++ rest) = some (String.ofList cs, rest) := by
  have hrun := many_of_runs (runs_basic cs rest)
  rw [basicText, List.cons_append, List.append_assoc, List.singleton_append, basicString,
    bind_of_some (char_cons quote _), bind_of_some hrun, bind_of_some (char_cons quote _)]
  rfl

/-- So is a literal string on one line. -/
theorem literalString_literalText (h : ∀ c ∈ cs, isLiteral c = true) (rest : List Char) :
    literalString (literalText cs ++ rest) = some (String.ofList cs, rest) := by
  have htaken : allOf isLiteral (cs ++ apostrophe :: rest) = some (cs, apostrophe :: rest) :=
    allOf_append h (of_head? (by decide) rest)
  rw [literalText, List.cons_append, List.append_assoc, List.singleton_append, literalString,
    bind_of_some (char_cons apostrophe _), bind_of_some htaken, bind_of_some (char_cons apostrophe _)]
  rfl

end MetricDepot.Toml
