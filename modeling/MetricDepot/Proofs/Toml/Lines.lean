import MetricDepot.Proofs.Toml.Strings
import MetricDepot.Toml.Document
/-!
# Lines — headers and texts under bare keys are read back

    A key without quotes is read up to the first character that cannot belong to it.  A header
    with such a key opens its table, and such a key with the string of a text puts the text
    under the key, below the last header.
-/

namespace MetricDepot.Toml

variable {p p' : Progress} {name gap rest s : List Char} {c : Char}

-- ── Keys ────────────────────────────────────────────────────────────────────

/-- A key that needs no quotes. -/
structure Bare (name : List Char) : Prop where
  ne_nil : name ≠ []
  all : name.all isBare = true

instance (name : List Char) : Decidable (Bare name) :=
  decidable_of_iff (name ≠ [] ∧ name.all isBare = true) ⟨fun h => ⟨h.1, h.2⟩, fun h => ⟨h.1, h.2⟩⟩

/-- A bare name has only bare characters. -/
theorem Bare.isBare_of_mem (h : Bare name) : ∀ c ∈ name, isBare c = true := List.all_eq_true.mp h.all

/-- A bare name has at least one character. -/
theorem Bare.head (h : Bare name) (rest : List Char) :
    ∃ c tail, name ++ rest = c :: tail ∧ isBare c = true := by
  cases name with
  | nil => exact absurd rfl h.ne_nil
  | cons c name => exact ⟨c, _, rfl, h.isBare_of_mem c List.mem_cons_self⟩

/-- A bare character is no blank. -/
theorem isBlank_of_isBare (h : isBare c = true) : isBlank c = false := by
  rw [isBlank, beq_eq_false_iff_ne.mpr (ne_of_class h (by decide)),
    beq_eq_false_iff_ne.mpr (ne_of_class h (by decide))]
  rfl

/-- A bare name is read back as a key. -/
theorem keyPart_bare (h : Bare name) (hrest : ∀ c, rest.head? = some c → isBare c = false) :
    keyPart (name ++ rest) = some (String.ofList name, rest) := by
  cases name with
  | nil => exact absurd rfl h.ne_nil
  | cons c name =>
    have hc := h.isBare_of_mem c List.mem_cons_self
    have hquote : (c :: (name ++ rest)).head? ≠ some quote := head?_ne (ne_of_class hc (by decide)) _
    have hapostrophe : (c :: (name ++ rest)).head? ≠ some apostrophe := head?_ne (ne_of_class hc (by decide)) _
    have htail := allOf_append (fun d hd => h.isBare_of_mem d (List.mem_cons_of_mem c hd)) hrest
    have hbasic : basicString (c :: (name ++ rest)) = none := bind_of_none (char_of_ne hquote)
    have hliteral : literalString (c :: (name ++ rest)) = none := bind_of_none (char_of_ne hapostrophe)
    rw [List.cons_append, keyPart, orElse_of_none hbasic, orElse_of_none hliteral, bareKey,
      bind_of_some (satisfy_cons hc _), bind_of_some htail]
    rfl

/-- A bare key is read with the blanks behind it. -/
theorem key_bare (h : Bare name) (hgap : ∀ c ∈ gap, isBlank c = true)
    (hrest : ∀ c, rest.head? = some c → isBlank c = false ∧ isBare c = false ∧ c ≠ '.') :
    key (name ++ (gap ++ rest)) = some (([], String.ofList name), rest) := by
  have hstop : ∀ c, (gap ++ rest).head? = some c → isBare c = false := by
    intro c hc
    cases gap with
    | nil => exact (hrest c hc).2.1
    | cons b gap =>
      obtain rfl := Option.some.inj hc
      cases hbare : isBare b with
      | false => rfl
      | true => cases (hgap b List.mem_cons_self).symm.trans (isBlank_of_isBare hbare)
  have hblanks : blanks (name ++ (gap ++ rest)) = some ((), name ++ (gap ++ rest)) := by
    obtain ⟨c, tail, htext, hc⟩ := h.head (gap ++ rest)
    rw [htext]
    exact blanks_of_none (of_head? (isBlank_of_isBare hc) tail)
  have hafter : blanks (gap ++ rest) = some ((), rest) :=
    discard_of_some (allOf_append hgap fun c hc => (hrest c hc).1)
  have hpart : (do blanks; let part ← keyPart; blanks; return part : Scanner String)
      (name ++ (gap ++ rest)) = some (String.ofList name, rest) := by
    rw [bind_of_some hblanks, bind_of_some (keyPart_bare h hstop), bind_of_some hafter]
    rfl
  have hpoint : rest.head? ≠ some '.' := fun hc => (hrest '.' hc).2.2 rfl
  rw [key, bind_of_some (separated_of_one hpart hpoint)]
  rfl

-- ── Values ──────────────────────────────────────────────────────────────────

/-- A string begins with quotes of one of the two kinds. -/
theorem head?_stringText (cs rest : List Char) :
    (stringText cs ++ rest).head? = some quote ∨ (stringText cs ++ rest).head? = some apostrophe := by
  rw [stringText]
  split
  next => exact Or.inl rfl
  next =>
    split
    next => exact Or.inr rfl
    next =>
      split
      next => exact Or.inl rfl
      next =>
        split
        next => exact Or.inr rfl
        next =>
          split
          next => exact Or.inl rfl
          next => exact Or.inl rfl

/-- A string at the end of a line is read as the text. -/
theorem value_stringText (room : Nat) (cs s : List Char) :
    value room (stringText cs ++ lineFeed :: s) = some (.text (String.ofList cs), lineFeed :: s) := by
  have hstring : anyString (stringText cs ++ lineFeed :: s) = some (String.ofList cs, lineFeed :: s) :=
    anyString_stringText cs (head?_ne (by decide) s) (head?_ne (by decide) s)
  cases room with
  | zero => exact orElse_of_some (map_of_some Item.text hstring)
  | succ room => exact orElse_of_some (map_of_some Item.text hstring)

-- ── Lines ───────────────────────────────────────────────────────────────────

/-- To look at the next character takes nothing. -/
theorem comesNext_cons (c d : Char) (s : List Char) :
    comesNext d (c :: s) = some (decide (c = d), c :: s) := by
  by_cases h : c = d
  · rw [comesNext, h, List.head?_cons, beq_self_eq_true, decide_eq_true rfl]
  · rw [comesNext, beq_eq_false_iff_ne.mpr (head?_ne h s), decide_eq_false h]

/-- What a line is shows in its first character. -/
theorem line_cons (hblank : isBlank c = false) (p : Progress) (s : List Char) :
    line p (c :: s)
      = (if c = '[' then header p else (do emptyLine; return p) <|> assignment p : Scanner Progress) (c :: s) := by
  have hblanks : blanks (c :: s) = some ((), c :: s) := blanks_of_none (of_head? hblank s)
  have hend : atEnd (c :: s) = some (false, c :: s) := rfl
  rw [line, bind_of_some hblanks, bind_of_some hend, if_neg Bool.false_ne_true, bind_of_some (comesNext_cons _ _ _)]
  simp only [decide_eq_true_eq]

/-- A header opens its table. -/
theorem line_header (h : Bare name) (hopen : p.openTable [] (String.ofList name) = some p') (s : List Char) :
    line p ('[' :: (name ++ ']' :: lineFeed :: s)) = some (p', s) := by
  obtain ⟨c, tail, htext, hc⟩ := h.head (']' :: lineFeed :: s)
  have hsingle : comesNext '[' (name ++ ']' :: lineFeed :: s) = some (false, name ++ ']' :: lineFeed :: s) := by
    rw [htext, comesNext_cons, decide_eq_false (ne_of_class hc (by decide))]
  have hgap : ∀ c ∈ ([] : List Char), isBlank c = true := fun _ hc => nomatch hc
  have hclose : ∀ c, (']' :: lineFeed :: s).head? = some c → isBlank c = false ∧ isBare c = false ∧ c ≠ '.' :=
    of_head? (by decide) _
  have hkey := key_bare h hgap hclose
  rw [List.nil_append] at hkey
  rw [line_cons (by decide), if_pos rfl, header, bind_of_some (char_cons '[' _), bind_of_some hsingle,
    if_neg Bool.false_ne_true, bind_of_some hkey]
  dsimp only
  rw [bind_of_some (char_cons ']' _), bind_of_some (lineRest_lineFeed s), lifted, hopen]
  rfl

/-- No line that begins with a key is empty. -/
theorem emptyLine_of_bare (h : isBare c = true) (s : List Char) : emptyLine (c :: s) = none := by
  have hother : ∀ d, isBare d = false → (c :: s).head? ≠ some d :=
    fun d hd => head?_ne (ne_of_class h hd) s
  rw [emptyLine, orElse_of_none (newline_of_ne (hother _ (by decide)) (hother _ (by decide))), comment]
  exact bind_of_none (bind_of_none (char_of_ne (hother _ (by decide))))

/-- A text under a key is added below the last header. -/
theorem line_assignment (h : Bare name) {cs : List Char}
    (hadd : p.addPair [] (String.ofList name) (.text (String.ofList cs)) = some p') (s : List Char) :
    line p (name ++ ' ' :: '=' :: ' ' :: (stringText cs ++ lineFeed :: s)) = some (p', s) := by
  have hgap : ∀ c ∈ [' '], isBlank c = true := List.all_eq_true.mp rfl
  have hequals : ∀ c, ('=' :: ' ' :: (stringText cs ++ lineFeed :: s)).head? = some c →
      isBlank c = false ∧ isBare c = false ∧ c ≠ '.' := of_head? (by decide) _
  have hkey := key_bare h hgap hequals
  rw [List.singleton_append] at hkey
  have hblanks : blanks (' ' :: (stringText cs ++ lineFeed :: s)) = some ((), stringText cs ++ lineFeed :: s) := by
    refine discard_of_some (allOf_append hgap fun c hc => ?_)
    rcases head?_stringText cs (lineFeed :: s) with hquote | hapostrophe
    · obtain rfl := Option.some.inj (hc.symm.trans hquote)
      decide
    · obtain rfl := Option.some.inj (hc.symm.trans hapostrophe)
      decide
  have hpair : pair (value nestingLimit) (name ++ ' ' :: '=' :: ' ' :: (stringText cs ++ lineFeed :: s))
      = some ((([], String.ofList name), .text (String.ofList cs)), lineFeed :: s) := by
    rw [pair, bind_of_some hkey, bind_of_some (char_cons '=' _), bind_of_some hblanks,
      bind_of_some (value_stringText nestingLimit cs s)]
    rfl
  have hassigned : assignment p (name ++ ' ' :: '=' :: ' ' :: (stringText cs ++ lineFeed :: s)) = some (p', s) := by
    rw [assignment, bind_of_some hpair]
    dsimp only
    rw [bind_of_some (lineRest_lineFeed s), lifted, hadd]
    rfl
  obtain ⟨c, tail, htext, hc⟩ := h.head (' ' :: '=' :: ' ' :: (stringText cs ++ lineFeed :: s))
  rw [htext] at hassigned ⊢
  rw [line_cons (isBlank_of_isBare hc), if_neg (ne_of_class hc (by decide)),
    orElse_of_none (bind_of_none (emptyLine_of_bare hc tail)), hassigned]

/-- A line is read, and those behind it. -/
theorem lines_of_line {fuel : Nat} (h : line p s = some (p', rest)) (hs : s ≠ []) :
    lines (fuel + 1) p s = lines fuel p' rest := by
  have hend : atEnd s = some (false, s) := by
    rw [atEnd, List.isEmpty_eq_false_iff.mpr hs]
  rw [lines, bind_of_some hend, if_neg Bool.false_ne_true, bind_of_some h]

/-- At the end there is no line to read. -/
theorem lines_nil (fuel : Nat) (p : Progress) : lines fuel p [] = some (p, []) := by
  cases fuel with
  | zero => rfl
  | succ fuel => rfl

end MetricDepot.Toml
