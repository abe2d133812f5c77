import Mathlib.Data.List.Forall2
import MetricDepot.Json.Reader
import MetricDepot.Json.Writer
/-!
# Reads — what is written is read back

    `Reads read text x` says that `read` takes `x` off the front of every document that begins
    with `text`, provided that what follows closes a value: nothing at all, a comma or a
    closing bracket or brace.  A number needs this, since digits that follow would belong to
    it.

    Strings are read back byte by byte.  An array is read back if its items are, and an object
    is folded if each of its members can be, from what the members before it have left.
-/

namespace MetricDepot.Json

variable {α β σ κ : Type}

-- ── What follows a value ────────────────────────────────────────────────────

/-- What may follow a value without being taken for a part of it. -/
inductive Closes : Bytes → Prop where
  | nothing : Closes []
  | comma (rest : Bytes) : Closes (Ascii.comma :: rest)
  | bracket (rest : Bytes) : Closes (Ascii.closeBracket :: rest)
  | brace (rest : Bytes) : Closes (Ascii.closeBrace :: rest)

/-- Whatever closes a value may follow the text, and `read` takes `x` and leaves the rest. -/
def Reads (read : Reader α) (text : Bytes) (x : α) : Prop :=
  ∀ rest, Closes rest → read (text ++ rest) = .ok (x, rest)

-- ── One step after another ──────────────────────────────────────────────────

/-- The second of two readers goes on where the first has stopped. -/
theorem bind_of_ok {read : Reader α} {next : α → Reader β} {s rest : Bytes} {x : α}
    (h : read s = .ok (x, rest)) : (read >>= next) s = next x rest := by
  show (read s >>= fun step => next step.1 step.2) = _
  rw [h]
  rfl

/-- To change what a reader gives changes nothing of what it takes. -/
theorem map_of_ok {read : Reader α} {f : α → β} {s rest : Bytes} {x : α}
    (h : read s = .ok (x, rest)) : (f <$> read) s = .ok (f x, rest) := by
  show (read s >>= fun step => Except.ok (f step.1, step.2)) = _
  rw [h]
  rfl

/-- A field that has not come yet is read. -/
theorem once_of_ok {read : Reader α} {s rest : Bytes} {x : α} (h : read s = .ok (x, rest)) :
    once none read s = .ok (some x, rest) :=
  map_of_ok h

theorem orFail_some (x : α) (rest : Bytes) : (orFail (some x) : Reader α) rest = .ok (x, rest) := rfl

namespace Reads

/-- The same of a text that is read wherever it stands. -/
theorem map {read : Reader α} {text : Bytes} {x : α} (h : Reads read text x) (f : α → β) :
    Reads (f <$> read) text (f x) := fun rest hrest => map_of_ok (h rest hrest)

/-- And of a field that has not come yet. -/
theorem once {read : Reader α} {text : Bytes} {x : α} (h : Reads read text x) :
    Reads (Json.once none read) text (some x) := fun rest hrest => once_of_ok (h rest hrest)

/-- A reader that ends with a step that takes nothing. -/
theorem bind_pure {read : Reader α} {next : α → Reader β} {text : Bytes} {x : α} {y : β}
    (h : Reads read text x) (hnext : ∀ rest, next x rest = .ok (y, rest)) :
    Reads (read >>= next) text y := fun rest hrest => (bind_of_ok (h rest hrest)).trans (hnext rest)

end Reads

-- ── Single bytes ────────────────────────────────────────────────────────────

/-- Only blanks are skipped. -/
theorem skipBlank_cons {b : UInt8} (h : isBlank b = false) (s : Bytes) :
    skipBlank (b :: s) = b :: s := by
  rw [skipBlank, List.dropWhile_cons_of_neg]
  rw [h]
  exact Bool.false_ne_true

/-- The next byte is taken where it is no blank. -/
theorem next_cons {b : UInt8} (h : isBlank b = false) (s : Bytes) :
    next (b :: s) = .ok (b, s) := by
  rw [next, lexeme, skipBlank_cons h]

/-- To look at the next byte takes nothing. -/
theorem peek_cons {b : UInt8} (h : isBlank b = false) (s : Bytes) :
    peek (b :: s) = .ok (b, b :: s) := by
  rw [peek, lexeme, skipBlank_cons h]

/-- The expected byte is taken where it stands. -/
theorem expect_cons {b : UInt8} (h : isBlank b = false) (s : Bytes) :
    expect b (b :: s) = .ok ((), s) := by
  rw [expect, bind_of_ok (next_cons h s), if_neg (fun hne => hne rfl)]
  rfl

/-- A byte is passed where it stands. -/
theorem passes_of_eq {b : UInt8} (h : isBlank b = false) (s : Bytes) :
    passes b (b :: s) = .ok (true, s) := by
  rw [passes, bind_of_ok (peek_cons h s), if_pos rfl, bind_of_ok (next_cons h s)]
  rfl

/-- Where another byte stands nothing is passed. -/
theorem passes_of_ne {b c : UInt8} (h : isBlank c = false) (hne : c ≠ b) (s : Bytes) :
    passes b (c :: s) = .ok (false, c :: s) := by
  rw [passes, bind_of_ok (peek_cons h s), if_neg hne]
  rfl

-- ── Strings ─────────────────────────────────────────────────────────────────

/-- The digits that the writer uses are read as what they stand for. -/
theorem hexValue?_hexDigit : ∀ d, d < 16 → Ascii.hexValue? (Ascii.hexDigit d) = some d := by
  decide

/-- The control characters, like all of ASCII, are their own code points. -/
theorem utf8_control : ∀ n, n < 32 → utf8 n = [UInt8.ofNat n] := by
  decide

/-- A byte inside a string gives some bytes, and the string goes on behind it. -/
theorem stringTail_go {spot : Spot} {b : UInt8} (out : Bytes) (next : Spot)
    (h : spot.move b = some (.go out next)) (rest : Bytes) :
    stringTail spot (b :: rest)
      = (stringTail next rest).map fun (text, after) => (out ++ text, after) := by
  rw [stringTail, h]

/-- So does the escape of a letter. -/
theorem stringTail_letter {letter c : UInt8} (h : Spot.escape.move letter = some (.go [c] .plain))
    (rest : Bytes) :
    stringTail .plain (Ascii.backslash :: letter :: rest)
      = (stringTail .plain rest).map fun (text, after) => (c :: text, after) := by
  rw [stringTail_go [] .escape rfl, stringTail_go [c] .plain h]
  cases stringTail .plain rest <;> rfl

/-- Four digits of which the first two are zeros stand for one control character. -/
theorem stringTail_control {b : UInt8} (h : b < 0x20) (rest : Bytes) :
    stringTail .plain (Ascii.backslash :: Ascii.letterU :: Ascii.zero :: Ascii.zero ::
        Ascii.hexDigit (b.toNat / 16) :: Ascii.hexDigit (b.toNat % 16) :: rest)
      = (stringTail .plain rest).map fun (text, after) => (b :: text, after) := by
  have hb : b.toNat < 32 := UInt8.lt_iff_toNat_lt.mp h
  have hhigh : (Spot.unit none 2 0).move (Ascii.hexDigit (b.toNat / 16))
      = some (.go [] (.unit none 1 (b.toNat / 16))) := by
    rw [Spot.move, hexValue?_hexDigit _ (by omega)]
    simp
  have hlow : (Spot.unit none 1 (b.toNat / 16)).move (Ascii.hexDigit (b.toNat % 16))
      = some (.go [b] .plain) := by
    have hunit : 16 * (b.toNat / 16) + b.toNat % 16 = b.toNat := Nat.div_add_mod _ _
    have hlowSurrogate : isLowSurrogate b.toNat = false := by
      simp [isLowSurrogate]
      omega
    have hhighSurrogate : isHighSurrogate b.toNat = false := by
      simp [isHighSurrogate]
      omega
    rw [Spot.move, hexValue?_hexDigit _ (by omega), Option.bind_some, if_pos (Nat.le_refl 1), hunit,
      endUnit, hlowSurrogate, hhighSurrogate, utf8_control _ hb, UInt8.ofNat_toNat]
    rfl
  rw [stringTail_go [] .escape rfl, stringTail_go [] (.unit none 4 0) rfl,
    stringTail_go [] (.unit none 3 0) rfl, stringTail_go [] (.unit none 2 0) rfl,
    stringTail_go [] _ hhigh, stringTail_go [b] _ hlow]
  cases stringTail .plain rest <;> rfl

/-- A byte is read back, whether it is written as an escape or as itself. -/
theorem stringTail_escapeByte (b : UInt8) (rest : Bytes) :
    stringTail .plain (escapeByte b ++ rest)
      = (stringTail .plain rest).map fun (text, after) => (b :: text, after) := by
  by_cases hplain : b = Ascii.quote ∨ b = Ascii.backslash ∨ b = 0x08 ∨ b = 0x0C ∨
      b = Ascii.lineFeed ∨ b = Ascii.carriageReturn ∨ b = Ascii.tab
  · rcases hplain with rfl | rfl | rfl | rfl | rfl | rfl | rfl
    all_goals exact stringTail_letter rfl rest
  · simp only [not_or] at hplain
    obtain ⟨hquote, hbackslash, h8, hC, hlineFeed, hreturn, htab⟩ := hplain
    rw [escapeByte, if_neg hquote, if_neg hbackslash, if_neg h8, if_neg hC, if_neg hlineFeed,
      if_neg hreturn, if_neg htab]
    split
    next hcontrol => exact stringTail_control hcontrol rest
    next hcontrol =>
      refine stringTail_go [b] .plain ?_ rest
      rw [Spot.move, if_neg hquote, if_neg hbackslash, if_neg hcontrol]

/-- What the writer makes of a text is read back, up to the quote behind it. -/
theorem stringTail_text (text rest : Bytes) :
    stringTail .plain (text.flatMap escapeByte ++ Ascii.quote :: rest) = some (text, rest) := by
  induction text with
  | nil => rfl
  | cons b text ih =>
    rw [List.flatMap_cons, List.append_assoc, stringTail_escapeByte, ih]
    rfl

/-- A string is read back wherever it stands. -/
theorem string_quoted (text : String) (rest : Bytes) :
    string (quoted text ++ rest) = .ok (text, rest) := by
  have hbody : string.lexemeHere ((Bytes.ofText text).flatMap escapeByte ++ Ascii.quote :: rest)
      = .ok (Bytes.ofText text, rest) := by
    rw [string.lexemeHere, stringTail_text]
  have hquoted : quoted text ++ rest
      = Ascii.quote :: ((Bytes.ofText text).flatMap escapeByte ++ Ascii.quote :: rest) := by
    rw [quoted, List.cons_append, List.append_assoc]
    rfl
  rw [hquoted, string, bind_of_ok (expect_cons rfl _), bind_of_ok hbody, Bytes.toText?_ofText]
  rfl

/-- A text between quotes is read back. -/
theorem reads_string (text : String) : Reads string (quoted text) text :=
  fun rest _ => string_quoted text rest

-- ── Arrays ──────────────────────────────────────────────────────────────────

/-- Behind an item that is not the last stands a comma. -/
theorem commaSeparated_cons (item : Bytes) {rest : List Bytes} (h : rest ≠ []) :
    commaSeparated (item :: rest) = item ++ Ascii.comma :: commaSeparated rest := by
  cases rest with
  | nil => exact absurd rfl h
  | cons other rest => rfl

/-- With a bracket behind them, items take at least as many bytes as they are. -/
theorem length_le_commaSeparated (items : List Bytes) (b : UInt8) (rest : Bytes) :
    items.length ≤ (commaSeparated items ++ b :: rest).length := by
  induction items with
  | nil => exact Nat.zero_le _
  | cons item items ih =>
    cases items with
    | nil =>
      rw [List.length_append, List.length_cons]
      exact Nat.le_trans (Nat.le_add_left 1 rest.length) (Nat.le_add_left _ _)
    | cons other items =>
      rw [commaSeparated_cons item (List.cons_ne_nil other items), List.append_assoc,
        List.length_append, List.cons_append, List.length_cons, List.length_cons]
      exact Nat.le_trans (Nat.succ_le_succ ih) (Nat.le_add_left _ _)

/-- Items that are read wherever they stand are read one after another. -/
theorem itemsFrom_of_reads {item : Reader α} {texts : List Bytes} {xs : List α}
    (h : List.Forall₂ (Reads item) texts xs) (hne : texts ≠ []) {fuel : Nat}
    (hfuel : texts.length ≤ fuel) (rest : Bytes) :
    itemsFrom item fuel (commaSeparated texts ++ Ascii.closeBracket :: rest) = .ok (xs, rest) := by
  induction h generalizing fuel with
  | nil => exact absurd rfl hne
  | @cons text x texts xs hfirst hothers ih =>
    cases fuel with
    | zero => exact absurd hfuel (Nat.not_succ_le_zero _)
    | succ fuel =>
      cases hothers with
      | nil =>
        rw [commaSeparated, itemsFrom, bind_of_ok (hfirst _ (.bracket rest)),
          bind_of_ok (next_cons rfl rest)]
        rfl
      | @cons other y texts xs hother hothers =>
        rw [commaSeparated_cons text (List.cons_ne_nil other texts), List.append_assoc,
          List.cons_append, itemsFrom, bind_of_ok (hfirst _ (.comma _)), bind_of_ok (next_cons rfl _),
          if_pos rfl, bind_of_ok (ih (List.cons_ne_nil other texts) (Nat.le_of_succ_le_succ hfuel))]
        rfl

/-- **An array is read back if its items are.** The items here are objects. -/
theorem reads_array {item : Reader α} {texts : List Bytes} {xs : List α}
    (h : List.Forall₂ (Reads item) texts xs)
    (hbrace : ∀ text ∈ texts, text.head? = some Ascii.openBrace) :
    Reads (array item) (arrayText texts) xs := by
  intro rest _
  rw [arrayText, List.cons_append, array, bind_of_ok (expect_cons rfl _), List.append_assoc,
    List.singleton_append, items]
  cases texts with
  | nil =>
    cases h
    rw [commaSeparated, List.nil_append, bind_of_ok (passes_of_eq rfl rest)]
    rfl
  | cons text texts =>
    obtain ⟨tail, rfl⟩ := List.head?_eq_some_iff.mp (hbrace text List.mem_cons_self)
    -- an item stands first, so the array is not taken for an empty one
    obtain ⟨more, hmore⟩ : ∃ more, commaSeparated ((Ascii.openBrace :: tail) :: texts)
        ++ Ascii.closeBracket :: rest = Ascii.openBrace :: more := by
      cases texts with
      | nil => exact ⟨_, rfl⟩
      | cons other texts => exact ⟨_, rfl⟩
    have hitems := itemsFrom_of_reads h (List.cons_ne_nil _ _)
      (length_le_commaSeparated _ Ascii.closeBracket rest) rest
    rw [hmore] at hitems ⊢
    rw [bind_of_ok (passes_of_ne rfl (by decide) more)]
    exact hitems

-- ── Objects ─────────────────────────────────────────────────────────────────

/-- Reading these members one after another leads from one state to another. -/
inductive Folds (member : σ → String → Reader σ) : List (String × Bytes) → σ → σ → Prop where
  | nil (seen : σ) : Folds member [] seen seen
  | cons {key : String} {text : Bytes} {rest : List (String × Bytes)} {seen seen' seen'' : σ}
      (hmember : Reads (member seen key) text seen') (hrest : Folds member rest seen' seen'') :
      Folds member ((key, text) :: rest) seen seen''

variable {member : σ → String → Reader σ} {written : List (String × Bytes)} {start final : σ}

/-- Members are folded one after another, up to the brace behind the last. -/
theorem membersFrom_of_folds (h : Folds member written start final) (hne : written ≠ []) {fuel : Nat}
    (hfuel : written.length ≤ fuel) (rest : Bytes) :
    membersFrom string member fuel start
        (commaSeparated (written.map fun m => memberText m.1 m.2) ++ Ascii.closeBrace :: rest)
      = .ok (final, rest) := by
  induction h generalizing fuel with
  | nil => exact absurd rfl hne
  | @cons key text written seen seen' seen'' hmember hothers ih =>
    cases fuel with
    | zero => exact absurd hfuel (Nat.not_succ_le_zero _)
    | succ fuel =>
      cases written with
      | nil =>
        cases hothers
        rw [List.map_cons, List.map_nil, commaSeparated, memberText, List.append_assoc,
          List.cons_append, membersFrom, bind_of_ok (string_quoted key _),
          bind_of_ok (expect_cons rfl _), bind_of_ok (hmember _ (.brace rest)),
          bind_of_ok (next_cons rfl rest)]
        rfl
      | cons other written =>
        have hmap : (other :: written).map (fun m => memberText m.1 m.2) ≠ [] := List.cons_ne_nil _ _
        rw [List.map_cons, commaSeparated_cons _ hmap, memberText, List.append_assoc,
          List.append_assoc, List.cons_append, List.cons_append, membersFrom,
          bind_of_ok (string_quoted key _), bind_of_ok (expect_cons rfl _),
          bind_of_ok (hmember _ (.comma _)), bind_of_ok (next_cons rfl _), if_pos rfl]
        exact ih (List.cons_ne_nil other written) (Nat.le_of_succ_le_succ hfuel)

/-- There may also be none of them. -/
theorem members_of_folds (h : Folds member written start final) (rest : Bytes) :
    members string member start
        (commaSeparated (written.map fun m => memberText m.1 m.2) ++ Ascii.closeBrace :: rest)
      = .ok (final, rest) := by
  rw [members]
  cases written with
  | nil =>
    cases h
    rw [List.map_nil, commaSeparated, List.nil_append, bind_of_ok (passes_of_eq rfl rest)]
    rfl
  | cons first written =>
    -- a key stands first, so the object is not taken for an empty one
    obtain ⟨more, hmore⟩ : ∃ more, commaSeparated ((first :: written).map fun m => memberText m.1 m.2)
        ++ Ascii.closeBrace :: rest = Ascii.quote :: more := by
      cases written with
      | nil => exact ⟨_, rfl⟩
      | cons other written => exact ⟨_, rfl⟩
    have hfuel := length_le_commaSeparated ((first :: written).map fun m => memberText m.1 m.2)
      Ascii.closeBrace rest
    rw [List.length_map] at hfuel
    have hmembers := membersFrom_of_folds h (List.cons_ne_nil first written) hfuel rest
    rw [hmore] at hmembers ⊢
    rw [bind_of_ok (passes_of_ne rfl (by decide) more)]
    exact hmembers

/-- **An object is folded as its members are.** -/
theorem reads_object (h : Folds member written start final) :
    Reads (object string member start) (objectText written) final := by
  intro rest _
  rw [objectText, List.cons_append, object, bind_of_ok (expect_cons rfl _), List.append_assoc,
    List.singleton_append]
  exact members_of_folds h rest

/-- A record that is written as an object is folded as its members are. -/
theorem reads_record (names : List String) (h : Folds member written start final) :
    Reads (record names member start) (objectText written) final := by
  intro rest _
  rw [objectText, List.cons_append, record, bind_of_ok (next_cons rfl _), if_pos rfl,
    List.append_assoc, List.singleton_append]
  exact members_of_folds h rest

/-- A document that is written is read back. -/
theorem document_of_reads {read : Reader α} {text : Bytes} {x : α} (h : Reads read text x) :
    document read text = .ok x := by
  have hread := h [] .nothing
  rw [List.append_nil] at hread
  show (read text >>= fun step =>
    if skipBlank step.2 = [] then Except.ok step.1 else throw Fault.malformed) = _
  rw [hread]
  rfl

end MetricDepot.Json
