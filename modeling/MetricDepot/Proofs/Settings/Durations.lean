import Mathlib.Data.List.TakeWhile
import Mathlib.Data.Nat.Digits.Defs
import MetricDepot.Settings.Duration
/-!
# Durations — their grammar, and that it is read in one way

    A duration is white space, a plus sign or none, digits, a unit, and white space.  The units
    overlap, since `ms` ends like `s` and begins like `m`, but no digit is a letter: whatever
    ending is found behind digits is the ending of the unit itself (`suffix_of_suffix_append`).  So
    the order in which the endings are tried does not matter, and each text says one count of
    one unit at most.

    The text is accepted exactly when its count fits 64 bits, and so do the seconds that minutes
    and hours come to; nothing is lost or wrapped on the way: `parse?_of_grammar`.
-/

namespace MetricDepot.Text

variable {cs before core behind : List Char}

-- ── White space at the edges ────────────────────────────────────────────────

theorem dropWhile_isBlank_of_none (h : ∀ c ∈ core, isBlank c = false) : core.dropWhile isBlank = core := by
  cases core with
  | nil => rfl
  | cons c core => exact List.dropWhile_cons_of_neg (by simp [h c List.mem_cons_self])

theorem trimRight_append (hcore : ∀ c ∈ core, isBlank c = false)
    (hbehind : ∀ c ∈ behind, isBlank c = true) : trimRight (core ++ behind) = core := by
  have hrest : ∀ c ∈ behind.reverse, isBlank c = true := fun c hc => hbehind c (List.mem_reverse.mp hc)
  have hkept : ∀ c ∈ core.reverse, isBlank c = false := fun c hc => hcore c (List.mem_reverse.mp hc)
  rw [trimRight, List.reverse_append, List.dropWhile_append_of_pos hrest,
    dropWhile_isBlank_of_none hkept, List.reverse_reverse]

/-- The visible characters of ASCII are no white space. -/
theorem isBlank_of_visible {c : Char} (hlow : 0x21 ≤ c.toNat) (hhigh : c.toNat ≤ 0x7E) :
    isBlank c = false := by
  simp only [isBlank, blankRanges, List.any_cons, List.any_nil, Bool.or_false, Bool.or_eq_false_iff,
    Bool.and_eq_false_iff, decide_eq_false_iff_not]
  omega

/-- White space around a text without any is taken off. -/
theorem trim_append (hne : core ≠ []) (hcore : ∀ c ∈ core, isBlank c = false)
    (hbefore : ∀ c ∈ before, isBlank c = true) (hbehind : ∀ c ∈ behind, isBlank c = true) :
    trim (before ++ (core ++ behind)) = core := by
  obtain ⟨c, rest, rfl⟩ := List.exists_cons_of_ne_nil hne
  rw [trim, List.dropWhile_append_of_pos hbefore, List.cons_append,
    List.dropWhile_cons_of_neg (by simp [hcore c List.mem_cons_self]), ← List.cons_append]
  exact trimRight_append hcore hbehind

/-- What is taken off is white space. -/
theorem exists_trim (cs : List Char) :
    ∃ before behind, cs = before ++ (trim cs ++ behind) ∧ (∀ c ∈ before, isBlank c = true) ∧
      ∀ c ∈ behind, isBlank c = true := by
  have hright : ∀ l : List Char, trimRight l ++ (l.reverse.takeWhile isBlank).reverse = l := by
    intro l
    rw [trimRight, ← List.reverse_append, List.takeWhile_append_dropWhile, List.reverse_reverse]
  refine ⟨cs.takeWhile isBlank, ((cs.dropWhile isBlank).reverse.takeWhile isBlank).reverse, ?_, ?_, ?_⟩
  · rw [trim, hright, List.takeWhile_append_dropWhile]
  · exact fun c => List.mem_takeWhile_imp
  · exact fun c hc => List.mem_takeWhile_imp (List.mem_reverse.mp hc)

end MetricDepot.Text

namespace MetricDepot.Duration

-- ── The grammar ─────────────────────────────────────────────────────────────

/-- The units in which durations are given; without one the count is of seconds. -/
inductive Measure where
  | milliseconds
  | seconds
  | minutes
  | hours
  | unnamed
deriving DecidableEq

namespace Measure

/-- What is written for a unit. -/
def text : Measure → List Char
  | milliseconds => ['m', 's']
  | seconds => ['s']
  | minutes => ['m']
  | hours => ['h']
  | unnamed => []

/-- The milliseconds that a unit comes to. -/
def length : Measure → Nat
  | milliseconds => 1
  | seconds => 1000
  | minutes => 60 * 1000
  | hours => 3600 * 1000
  | unnamed => 1000

/-- Minutes and hours come to many seconds, whose number must fit 64 bits. -/
def Fits : Measure → Nat → Prop
  | minutes, n => n * 60 < 2 ^ 64
  | hours, n => n * 3600 < 2 ^ 64
  | _, _ => True

end Measure

/-- A count is a plus sign or none, and decimal digits, of which there is one at least. -/
def Counts (cs : List Char) (n : Nat) : Prop :=
  ∃ sign digits, cs = sign ++ digits ∧ (sign = [] ∨ sign = ['+']) ∧ digits ≠ [] ∧
    (∀ c ∈ digits, c.isDigit = true) ∧
    n = Nat.ofDigits 10 (digits.reverse.map fun c => c.toNat - '0'.toNat)

/-- A text says a count of a unit if there is white space around the two. -/
def Says (text : String) (n : Nat) (u : Measure) : Prop :=
  ∃ before counted behind, text.toList = before ++ (counted ++ u.text ++ behind) ∧
    (∀ c ∈ before, Text.isBlank c = true) ∧ (∀ c ∈ behind, Text.isBlank c = true) ∧ Counts counted n

variable {cs counted front ending rest : List Char} {n m unit : Nat} {u v : Measure} {text : String}
  {d : Duration}

-- ── Counts ──────────────────────────────────────────────────────────────────

theorem number_eq_ofDigits (digits : List Char) :
    number digits = Nat.ofDigits 10 (digits.reverse.map fun c => c.toNat - '0'.toNat) := by
  rw [Nat.ofDigits_eq_foldr, List.foldr_map, List.foldr_reverse, number]
  refine congrArg (List.foldl · 0 digits) (funext₂ fun n c => ?_)
  exact Nat.add_comm _ _

/-- What is behind the plus sign, if there is one. -/
def unsigned (cs : List Char) : List Char := if cs.head? = some '+' then cs.tail else cs

theorem unsigned_append {sign digits : List Char} (hsign : sign = [] ∨ sign = ['+'])
    (hdigits : ∀ c ∈ digits, c.isDigit = true) : unsigned (sign ++ digits) = digits := by
  rcases hsign with rfl | rfl
  · refine if_neg fun hplus => ?_
    exact absurd (hdigits '+' (List.mem_of_head? hplus)) (by decide)
  · rfl

theorem exists_sign (cs : List Char) : ∃ sign, cs = sign ++ unsigned cs ∧ (sign = [] ∨ sign = ['+']) := by
  by_cases hplus : cs.head? = some '+'
  · obtain ⟨rest, rfl⟩ := List.head?_eq_some_iff.mp hplus
    exact ⟨['+'], rfl, Or.inr rfl⟩
  · refine ⟨[], ?_, Or.inl rfl⟩
    rw [unsigned, if_neg hplus]
    rfl

theorem counts_iff :
    Counts cs n ↔ unsigned cs ≠ [] ∧ (∀ c ∈ unsigned cs, c.isDigit = true) ∧ n = number (unsigned cs) := by
  constructor
  · rintro ⟨sign, digits, rfl, hsign, hne, hdigits, rfl⟩
    rw [unsigned_append hsign hdigits, number_eq_ofDigits]
    exact ⟨hne, hdigits, rfl⟩
  · rintro ⟨hne, hdigits, rfl⟩
    obtain ⟨sign, hcs, hsign⟩ := exists_sign cs
    exact ⟨sign, unsigned cs, hcs, hsign, hne, hdigits, number_eq_ofDigits _⟩

theorem count?_eq_some_iff : count? cs = some n ↔ Counts cs n ∧ n < 2 ^ 64 := by
  show (if unsigned cs ≠ [] ∧ (unsigned cs).all Char.isDigit = true ∧ number (unsigned cs) < 2 ^ 64
    then some (number (unsigned cs)) else none) = some n ↔ _
  rw [counts_iff, ← List.all_eq_true]
  constructor
  · intro h
    split at h
    next hboth =>
      obtain rfl := Option.some.inj h
      exact ⟨⟨hboth.1, hboth.2.1, rfl⟩, hboth.2.2⟩
    next => cases h
  · rintro ⟨⟨hne, hdigits, rfl⟩, hfits⟩
    exact if_pos ⟨hne, hdigits, hfits⟩

/-- No two numbers are counted by one text. -/
theorem Counts.unique (hn : Counts cs n) (hm : Counts cs m) : n = m := by
  rw [counts_iff] at hn hm
  rw [hn.2.2, hm.2.2]

/-- The characters of a count are visible, and come before all letters. -/
theorem Counts.characters (h : Counts cs n) : ∀ c ∈ cs, 0x21 ≤ c.toNat ∧ c.toNat ≤ 0x39 := by
  obtain ⟨sign, digits, rfl, hsign, -, hdigits, -⟩ := h
  intro c hc
  rcases List.mem_append.mp hc with hc | hc
  · rcases hsign with rfl | rfl
    · cases hc
    · rw [List.mem_singleton.mp hc]
      decide
  · obtain ⟨hlow, hhigh⟩ := Char.isDigit_iff_toNat.mp (hdigits c hc)
    exact ⟨Nat.le_trans (by decide) hlow, hhigh⟩

theorem Counts.ne_nil (h : Counts cs n) : cs ≠ [] := by
  obtain ⟨sign, digits, rfl, -, hne, -⟩ := h
  exact List.append_ne_nil_of_right_ne_nil sign hne

-- ── Units ───────────────────────────────────────────────────────────────────

/-- A unit is written with small letters. -/
theorem Measure.characters (u : Measure) : ∀ c ∈ u.text, 0x61 ≤ c.toNat ∧ c.toNat ≤ 0x7A := by
  cases u <;> simp [text]

theorem Measure.text_injective : Function.Injective Measure.text := by
  intro u v h
  cases u <;> cases v <;> first | rfl | cases h

/-- What fits comes to less than the seconds that 64 bits can count. -/
theorem Measure.length_lt (hword : n < 2 ^ 64) (hfits : u.Fits n) : n * u.length < 2 ^ 64 * 1000 := by
  cases u with
  | milliseconds | seconds | unnamed =>
    rw [length]
    omega
  | minutes | hours =>
    rw [length, ← Nat.mul_assoc]
    exact Nat.mul_lt_mul_of_pos_right hfits (by decide)

/-- An ending of which no character occurs in front of the rest is an ending of the rest. -/
theorem suffix_of_suffix_append (hapart : ∀ c ∈ ending, c ∉ front) (h : ending <:+ front ++ rest) :
    ending <:+ rest := by
  rcases List.suffix_or_suffix_of_suffix h (List.suffix_append front rest) with hending | hrest
  · exact hending
  · obtain ⟨more, rfl⟩ := hrest
    obtain ⟨before, hbefore⟩ := h
    have hfront : before ++ more = front := List.append_cancel_right (by rw [← hbefore, List.append_assoc])
    cases more with
    | nil => exact List.suffix_refl rest
    | cons c more =>
      refine absurd ?_ (hapart c List.mem_cons_self)
      rw [← hfront]
      exact List.mem_append_right before List.mem_cons_self

/-- A unit that ends a count and its unit ends this unit. -/
theorem Counts.suffix (h : Counts cs n) (hu : u.text <:+ cs ++ v.text) : u.text <:+ v.text := by
  refine suffix_of_suffix_append ?_ hu
  intro c hletter hcount
  have hlow := (u.characters c hletter).1
  have hhigh := (h.characters c hcount).2
  omega

/-- A count and its unit are told apart. -/
theorem Counts.unit_unique (hn : Counts cs n) (hm : Counts counted m)
    (h : cs ++ u.text = counted ++ v.text) : cs = counted ∧ u = v := by
  have huv : u.text <:+ v.text := hm.suffix (h ▸ List.suffix_append cs u.text)
  have hvu : v.text <:+ u.text := hn.suffix (h ▸ List.suffix_append counted v.text)
  have htext : u.text = v.text := huv.eq_of_length (Nat.le_antisymm huv.length_le hvu.length_le)
  rw [htext] at h
  exact ⟨List.append_cancel_right h, Measure.text_injective htext⟩

/-- What is said is what is left when the white space is taken off. -/
theorem says_iff : Says text n u ↔ ∃ counted, Text.trim text.toList = counted ++ u.text ∧ Counts counted n := by
  constructor
  · rintro ⟨before, counted, behind, htext, hbefore, hbehind, hcounts⟩
    refine ⟨counted, ?_, hcounts⟩
    rw [htext]
    refine Text.trim_append (List.append_ne_nil_of_left_ne_nil hcounts.ne_nil _) ?_ hbefore hbehind
    intro c hc
    rcases List.mem_append.mp hc with hc | hc
    · obtain ⟨hlow, hhigh⟩ := hcounts.characters c hc
      exact Text.isBlank_of_visible hlow (by omega)
    · obtain ⟨hlow, hhigh⟩ := u.characters c hc
      exact Text.isBlank_of_visible (by omega) (by omega)
  · rintro ⟨counted, htrim, hcounts⟩
    obtain ⟨before, behind, htext, hbefore, hbehind⟩ := Text.exists_trim text.toList
    rw [htrim] at htext
    exact ⟨before, counted, behind, htext, hbefore, hbehind, hcounts⟩

/-- No text says two counts, or a count of two units. -/
theorem Says.unique (hn : Says text n u) (hm : Says text m v) : n = m ∧ u = v := by
  obtain ⟨cs, htrim, hcs⟩ := says_iff.mp hn
  obtain ⟨counted, htrim', hcounted⟩ := says_iff.mp hm
  obtain ⟨rfl, rfl⟩ := hcs.unit_unique hcounted (htrim.symm.trans htrim')
  exact ⟨hcs.unique hcounted, rfl⟩

-- ── Reading ─────────────────────────────────────────────────────────────────

theorem beforeEnding_append (front ending : List Char) : beforeEnding ending (front ++ ending) = some front := by
  rw [beforeEnding, if_pos (List.isSuffixOf_iff_suffix.mpr (List.suffix_append front ending)),
    List.length_append, Nat.add_sub_cancel, List.take_left]

theorem beforeEnding_of_not_suffix (h : ¬ ending <:+ cs) : beforeEnding ending cs = none :=
  if_neg fun hsuffix => h (List.isSuffixOf_iff_suffix.mp hsuffix)

theorem eq_append_of_beforeEnding (h : beforeEnding ending cs = some front) : cs = front ++ ending := by
  rw [beforeEnding] at h
  split at h
  next hsuffix =>
    rw [← Option.some.inj h]
    exact (List.suffix_iff_eq_append.mp (List.isSuffixOf_iff_suffix.mp hsuffix)).symm
  next => cases h

/-- The duration that a count of a unit comes to. -/
def reading (front : List Char) : Measure → Option Duration
  | .milliseconds => count? front
  | .seconds => inSeconds 1 front
  | .minutes => inSeconds 60 front
  | .hours => inSeconds 3600 front
  | .unnamed => inSeconds 1 front

theorem inSeconds_eq_some_iff :
    inSeconds unit cs = some d ↔ ∃ n, Counts cs n ∧ n < 2 ^ 64 ∧ n * unit < 2 ^ 64 ∧ d = n * unit * 1000 := by
  constructor
  · intro h
    obtain ⟨n, hcount, hn⟩ := Option.bind_eq_some_iff.mp h
    obtain ⟨hcounts, hfits⟩ := count?_eq_some_iff.mp hcount
    split at hn
    next hunit => exact ⟨n, hcounts, hfits, hunit, (Option.some.inj hn).symm⟩
    next => cases hn
  · rintro ⟨n, hcounts, hfits, hunit, rfl⟩
    exact Option.bind_eq_some_iff.mpr ⟨n, count?_eq_some_iff.mpr ⟨hcounts, hfits⟩, if_pos hunit⟩

theorem reading_eq_some_iff :
    reading cs u = some d ↔ ∃ n, Counts cs n ∧ n < 2 ^ 64 ∧ u.Fits n ∧ d = n * u.length := by
  cases u with
  | milliseconds =>
    simp only [reading, count?_eq_some_iff, Measure.Fits, Measure.length, true_and, Nat.mul_one,
      exists_eq_right', ← and_assoc]
  | seconds | unnamed =>
    simp only [reading, inSeconds_eq_some_iff, Measure.Fits, Measure.length, true_and, Nat.mul_one,
      and_self_left]
  | minutes | hours =>
    simp only [reading, inSeconds_eq_some_iff, Measure.Fits, Measure.length, Nat.mul_assoc]

/-- The endings are tried in this order, and what has none of them is in seconds. -/
theorem parse?_eq (text : String) :
    parse? text =
      match beforeEnding (Measure.text .milliseconds) (Text.trim text.toList) with
      | some front => reading front .milliseconds
      | none =>
        match beforeEnding (Measure.text .seconds) (Text.trim text.toList) with
        | some front => reading front .seconds
        | none =>
          match beforeEnding (Measure.text .minutes) (Text.trim text.toList) with
          | some front => reading front .minutes
          | none =>
            match beforeEnding (Measure.text .hours) (Text.trim text.toList) with
            | some front => reading front .hours
            | none => reading (Text.trim text.toList) .unnamed := rfl

/-- Behind a count no unit is taken for another. -/
theorem parse?_of_trim (htrim : Text.trim text.toList = cs ++ u.text) (hcounts : Counts cs n) :
    parse? text = reading cs u := by
  have hown : beforeEnding u.text (cs ++ u.text) = some cs := beforeEnding_append cs u.text
  have hother : ∀ v : Measure, ¬ v.text <:+ u.text → beforeEnding v.text (cs ++ u.text) = none :=
    fun v hv => beforeEnding_of_not_suffix fun hsuffix => hv (hcounts.suffix hsuffix)
  rw [parse?_eq, htrim]
  cases u with
  | milliseconds => rw [hown]
  | seconds => rw [hother .milliseconds (by decide), hown]
  | minutes => rw [hother .milliseconds (by decide), hother .seconds (by decide), hown]
  | hours =>
    rw [hother .milliseconds (by decide), hother .seconds (by decide), hother .minutes (by decide), hown]
  | unnamed =>
    rw [hother .milliseconds (by decide), hother .seconds (by decide), hother .minutes (by decide),
      hother .hours (by decide)]
    exact congrArg (reading · .unnamed) (List.append_nil cs)

/-- What is read is read as a unit. -/
theorem exists_reading (h : parse? text = some d) :
    ∃ u front, Text.trim text.toList = front ++ u.text ∧ reading front u = some d := by
  rw [parse?_eq] at h
  split at h
  next front hfront => exact ⟨.milliseconds, front, eq_append_of_beforeEnding hfront, h⟩
  split at h
  next front hfront => exact ⟨.seconds, front, eq_append_of_beforeEnding hfront, h⟩
  split at h
  next front hfront => exact ⟨.minutes, front, eq_append_of_beforeEnding hfront, h⟩
  split at h
  next front hfront => exact ⟨.hours, front, eq_append_of_beforeEnding hfront, h⟩
  exact ⟨.unnamed, _, (List.append_nil _).symm, h⟩

/-- **The grammar of durations.** A text is read as a duration if and only if it is, within white
    space, a plus sign or none, one or more digits, and the name of a unit or none, where the
    count fits 64 bits and, for minutes and hours, so do the seconds; and the duration is then
    that count of the unit, exactly.  It is never as long as 2 to the 64 seconds.  No text says
    two counts, or a count of two units. -/
theorem parse?_of_grammar (text : String) :
    (∀ d, parse? text = some d ↔ ∃ n u, Says text n u ∧ n < 2 ^ 64 ∧ u.Fits n ∧ d = n * u.length) ∧
      (∀ d, parse? text = some d → d < 2 ^ 64 * 1000) ∧
      ∀ n u m v, Says text n u → Says text m v → n = m ∧ u = v := by
  have hgrammar : ∀ d, parse? text = some d ↔
      ∃ n u, Says text n u ∧ n < 2 ^ 64 ∧ u.Fits n ∧ d = n * u.length := by
    intro d
    constructor
    · intro h
      obtain ⟨u, front, htrim, hreading⟩ := exists_reading h
      obtain ⟨n, hcounts, hfits⟩ := reading_eq_some_iff.mp hreading
      exact ⟨n, u, says_iff.mpr ⟨front, htrim, hcounts⟩, hfits⟩
    · rintro ⟨n, u, hsays, hfits⟩
      obtain ⟨counted, htrim, hcounts⟩ := says_iff.mp hsays
      rw [parse?_of_trim htrim hcounts]
      exact reading_eq_some_iff.mpr ⟨n, hcounts, hfits⟩
  refine ⟨hgrammar, ?_, fun n u m v => Says.unique⟩
  intro d h
  obtain ⟨n, u, -, hword, hfits, rfl⟩ := (hgrammar d).mp h
  exact Measure.length_lt hword hfits

/-- The last minute that fits, and the first that does not. -/
example : parse? "\t+307445734561825860m " = some 18446744073709551600000 ∧
    parse? "307445734561825861m" = none := by
  decide +kernel

end MetricDepot.Duration
