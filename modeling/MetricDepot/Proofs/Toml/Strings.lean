import MetricDepot.Proofs.Toml.LongStrings
/-!
# Strings — every text survives as a TOML string

    Whichever of its forms a text is written in, the string is read back as the text.  The forms
    are tried in a fixed order.  A text on one line is no text over several lines, since it does
    not begin with three marks, and what begins with one kind of quotes is not taken for the
    other kind.
-/

namespace MetricDepot.Toml

variable {c mark : Char} {cs text rest s : List Char} {piece : Scanner (List Char)}

-- ── Strings of any form ─────────────────────────────────────────────────────

/-- A string over several lines begins with three marks. -/
theorem longString_of_few (h : runLength mark s < 3) : longString mark piece s = none :=
  bind_of_none (discard_of_none (exactly_of_few h))

/-- It does not begin without one. -/
theorem longString_of_ne (h : s.head? ≠ some mark) : longString mark piece s = none := by
  refine longString_of_few ?_
  rw [runLength_of_ne h]
  decide

/-- A text on one line does not begin with three marks. -/
theorem longString_of_single (htext : ∀ b, text.head? = some b → b ≠ mark)
    (hrest : rest.head? ≠ some mark) : longString mark piece (mark :: (text ++ mark :: rest)) = none := by
  refine longString_of_few ?_
  rw [runLength_mark]
  cases text with
  | nil =>
    rw [List.nil_append, runLength_mark, runLength_of_ne hrest]
    decide
  | cons b text =>
    have hb : (b :: text ++ mark :: rest).head? ≠ some mark := head?_ne (htext b rfl) _
    rw [runLength_of_ne hb]
    decide

/-- What the writer makes of a text on one line does not begin with a quote. -/
theorem head?_escapedText (cs : List Char) : ∀ b, (escapedText false 0 0 cs).head? = some b → b ≠ quote := by
  intro b hb
  cases cs with
  | nil => cases hb
  | cons c cs =>
    rw [escapedText] at hb
    split at hb
    next => exact of_head? (P := (· ≠ quote)) (by decide) _ b hb
    next hc =>
      obtain ⟨d, tail, htext, hd⟩ := opens_of_spelling (spelling_escaped false hc)
      rw [htext] at hb
      exact of_head? (P := (· ≠ quote)) hd _ b hb

/-- A text that is written on one line with escapes is read back. -/
theorem anyString_basicText (cs : List Char) (hrest : rest.head? ≠ some quote) :
    anyString (basicText cs ++ rest) = some (String.ofList cs, rest) := by
  have hlong : longBasicString (basicText cs ++ rest) = none := by
    rw [basicText, List.cons_append, List.append_assoc]
    exact longString_of_single (head?_escapedText cs) hrest
  rw [anyString, orElse_of_none hlong]
  exact orElse_of_some (basicString_basicText cs rest)

/-- A text that is written over several lines with escapes is read back. -/
theorem anyString_longBasicText (cs : List Char) (hrest : rest.head? ≠ some quote) :
    anyString (longBasicText cs ++ rest) = some (String.ofList cs, rest) :=
  orElse_of_some (longBasicString_longBasicText cs hrest)

/-- What begins with a single quote is no basic string. -/
theorem anyString_of_apostrophe (h : s.head? = some apostrophe) :
    anyString s = (longLiteralString <|> literalString) s := by
  have hquote : s.head? ≠ some quote := by
    rw [h]
    decide
  have hlong : longBasicString s = none := longString_of_ne hquote
  have hbasic : basicString s = none := bind_of_none (char_of_ne hquote)
  rw [anyString, orElse_of_none hlong, orElse_of_none hbasic]

/-- A text that is written as it is on one line is read back. -/
theorem anyString_literalText (hcs : ∀ c ∈ cs, isLiteral c = true) (hrest : rest.head? ≠ some apostrophe) :
    anyString (literalText cs ++ rest) = some (String.ofList cs, rest) := by
  have hhead : ∀ b, cs.head? = some b → b ≠ apostrophe := by
    rintro b hb rfl
    have hmark := hcs apostrophe (List.mem_of_head? hb)
    cases hmark
  have hlong : longLiteralString (literalText cs ++ rest) = none := by
    rw [literalText, List.cons_append, List.append_assoc]
    exact longString_of_single hhead hrest
  rw [anyString_of_apostrophe rfl, orElse_of_none hlong]
  exact literalString_literalText hcs rest

/-- A text that is written as it is over several lines is read back. -/
theorem anyString_longLiteralText (hcs : ∀ c ∈ cs, c = lineFeed ∨ c = apostrophe ∨ isLiteral c = true)
    (hfree : hasRun apostrophe 3 cs = false) (hrest : rest.head? ≠ some apostrophe) :
    anyString (longLiteralText cs ++ rest) = some (String.ofList cs, rest) := by
  have hhead : (longLiteralText cs ++ rest).head? = some apostrophe := rfl
  rw [anyString_of_apostrophe hhead]
  exact orElse_of_some (longLiteralString_longLiteralText hcs hfree hrest)

/-- What needs no escape may stand in a literal string. -/
theorem isLiteral_of_not_foreign (hforeign : isForeign c = false) (hfeed : c ≠ lineFeed)
    (hmark : c ≠ apostrophe) : isLiteral c = true := by
  have hplain : isPlain c = true := by
    by_cases htab : c = tab
    · rw [htab]
      decide
    · rw [isForeign, bne_iff_ne.mpr htab, bne_iff_ne.mpr hfeed, Bool.and_true, Bool.and_true, Bool.or_eq_false_iff,
        decide_eq_false_iff_not, beq_eq_false_iff_ne] at hforeign
      rw [isPlain, Bool.or_eq_true, Bool.and_eq_true, decide_eq_true_eq, decide_eq_true_eq]
      right
      omega
  rw [isLiteral, hplain, bne_iff_ne.mpr hmark]
  rfl

/-- **Every text survives as a string**, in whichever form it is written. -/
theorem anyString_stringText (cs : List Char) (hquote : rest.head? ≠ some quote)
    (hapostrophe : rest.head? ≠ some apostrophe) :
    anyString (stringText cs ++ rest) = some (String.ofList cs, rest) := by
  have hliteral : cs.any isForeign = false → ∀ c ∈ cs, c = lineFeed ∨ c = apostrophe ∨ isLiteral c = true := by
    intro hforeign c hc
    by_cases hfeed : c = lineFeed
    · exact Or.inl hfeed
    · by_cases hmark : c = apostrophe
      · exact Or.inr (Or.inl hmark)
      · have hc : isForeign c = false := by simpa using List.any_eq_false.mp hforeign c hc
        exact Or.inr (Or.inr (isLiteral_of_not_foreign hc hfeed hmark))
  rw [stringText]
  split
  next => exact anyString_basicText cs hquote
  next =>
    split
    next h =>
      simp only [Bool.and_eq_true, Bool.not_eq_true', List.contains_eq_mem, decide_eq_false_iff_not] at h
      obtain ⟨⟨hforeign, hfeed⟩, hmark⟩ := h
      refine anyString_literalText (fun c hc => ?_) hapostrophe
      rcases hliteral hforeign c hc with rfl | rfl | hc
      · exact absurd hc hfeed
      · exact absurd hc hmark
      · exact hc
    next =>
      split
      next => exact anyString_longBasicText cs hquote
      next =>
        split
        next h =>
          simp only [Bool.and_eq_true, Bool.not_eq_true'] at h
          exact anyString_longLiteralText (hliteral h.1) h.2 hapostrophe
        next =>
          split
          next => exact anyString_longBasicText cs hquote
          next => exact anyString_basicText cs hquote

end MetricDepot.Toml
