import Mathlib.Computability.Language
import MetricDepot.Family.Basic
/-!
# Names — as regular languages

    A name is one character of a class and then any number of another: `[a-zA-Z_][a-zA-Z0-9_]*`
    for labels, and the same with colons among the letters for metrics.  Both are languages of
    texts, made of ranges of characters by union, concatenation and repetition.  The scan
    through the characters of a text accepts just the language.
-/

namespace MetricDepot

open Computability

-- ── Classes of characters ───────────────────────────────────────────────────

/-- The texts of one character with a property. -/
def oneOf (p : Char → Prop) : Language Char := {word | ∃ c, word = [c] ∧ p c}

/-- The texts of one character of a range. -/
def range (first last : Char) : Language Char := oneOf fun c => first ≤ c ∧ c ≤ last

/-- The text of one given character. -/
def just (c : Char) : Language Char := oneOf (· = c)

theorem oneOf_add (p q : Char → Prop) : oneOf p + oneOf q = oneOf fun c => p c ∨ q c := by
  ext word
  rw [Language.mem_add]
  constructor
  · rintro (⟨c, rfl, hc⟩ | ⟨c, rfl, hc⟩)
    · exact ⟨c, rfl, Or.inl hc⟩
    · exact ⟨c, rfl, Or.inr hc⟩
  · rintro ⟨c, rfl, hc | hc⟩
    · exact Or.inl ⟨c, rfl, hc⟩
    · exact Or.inr ⟨c, rfl, hc⟩

theorem mem_kstar_oneOf {p : Char → Prop} {word : List Char} : word ∈ (oneOf p)∗ ↔ ∀ c ∈ word, p c := by
  rw [Language.mem_kstar]
  constructor
  · rintro ⟨pieces, rfl, hpieces⟩ c hc
    obtain ⟨piece, hpiece, hc⟩ := List.mem_flatten.mp hc
    obtain ⟨d, rfl, hd⟩ := hpieces piece hpiece
    rw [List.mem_singleton.mp hc]
    exact hd
  · intro h
    refine ⟨word.map ([·]), ?_, ?_⟩
    · rw [← List.flatMap_def, List.flatMap_singleton']
    · intro piece hpiece
      obtain ⟨c, hc, rfl⟩ := List.mem_map.mp hpiece
      exact ⟨c, rfl, h c hc⟩

/-- A class, and then any number of characters of another. -/
theorem mem_oneOf_mul_kstar {p q : Char → Prop} {word : List Char} :
    word ∈ oneOf p * (oneOf q)∗ ↔ ∃ c rest, word = c :: rest ∧ p c ∧ ∀ d ∈ rest, q d := by
  rw [Language.mem_mul]
  constructor
  · rintro ⟨_, ⟨c, rfl, hc⟩, rest, hrest, rfl⟩
    exact ⟨c, rest, rfl, hc, mem_kstar_oneOf.mp hrest⟩
  · rintro ⟨c, rest, rfl, hc, hrest⟩
    exact ⟨[c], ⟨c, rfl, hc⟩, rest, mem_kstar_oneOf.mpr hrest, rfl⟩

-- ── Names ───────────────────────────────────────────────────────────────────

/-- `[a-zA-Z_][a-zA-Z0-9_]*` -/
def labelNames : Language Char :=
  (range 'a' 'z' + range 'A' 'Z' + just '_') *
    (range 'a' 'z' + range 'A' 'Z' + range '0' '9' + just '_')∗

/-- `[a-zA-Z_:][a-zA-Z0-9_:]*` -/
def metricNames : Language Char :=
  (range 'a' 'z' + range 'A' 'Z' + just '_' + just ':') *
    (range 'a' 'z' + range 'A' 'Z' + range '0' '9' + just '_' + just ':')∗

theorem isAlpha_iff {c : Char} : c.isAlpha = true ↔ ('a' ≤ c ∧ c ≤ 'z') ∨ ('A' ≤ c ∧ c ≤ 'Z') := by
  have hupper : c.isUpper = true ↔ 'A' ≤ c ∧ c ≤ 'Z' := decide_eq_true_iff
  have hlower : c.isLower = true ↔ 'a' ≤ c ∧ c ≤ 'z' := by
    show (decide ('a' ≤ c) && decide (c ≤ 'z')) = true ↔ _
    rw [Bool.and_eq_true, decide_eq_true_eq, decide_eq_true_eq]
  show (c.isUpper || c.isLower) = true ↔ _
  rw [Bool.or_eq_true, hupper, hlower, or_comm]

theorem isDigit_iff {c : Char} : c.isDigit = true ↔ '0' ≤ c ∧ c ≤ '9' := by
  rw [Char.isDigit, Bool.and_eq_true, decide_eq_true_eq, decide_eq_true_eq]
  exact Iff.rfl

theorem beginsName_iff {c : Char} :
    beginsName c = true ↔ (('a' ≤ c ∧ c ≤ 'z') ∨ ('A' ≤ c ∧ c ≤ 'Z')) ∨ c = '_' := by
  rw [beginsName, Bool.or_eq_true, isAlpha_iff, beq_iff_eq]

theorem continuesName_iff {c : Char} :
    continuesName c = true ↔
      ((('a' ≤ c ∧ c ≤ 'z') ∨ ('A' ≤ c ∧ c ≤ 'Z')) ∨ ('0' ≤ c ∧ c ≤ '9')) ∨ c = '_' := by
  rw [continuesName, Bool.or_eq_true, beginsName_iff, isDigit_iff, or_right_comm]

/-- The scan for label names accepts their language. -/
theorem isLabelName_iff {text : String} : isLabelName text = true ↔ text.toList ∈ labelNames := by
  have hscan : isLabelName text = true ↔ ∃ c rest, text.toList = c :: rest ∧
      beginsName c = true ∧ ∀ d ∈ rest, continuesName d = true := by
    rw [isLabelName]
    cases text.toList <;> simp
  rw [hscan]
  simp only [labelNames, range, just, oneOf_add, mem_oneOf_mul_kstar, beginsName_iff, continuesName_iff]

/-- The scan for metric names accepts theirs. -/
theorem isMetricName_iff {text : String} : isMetricName text = true ↔ text.toList ∈ metricNames := by
  have hscan : isMetricName text = true ↔ ∃ c rest, text.toList = c :: rest ∧
      (beginsName c = true ∨ c = ':') ∧ ∀ d ∈ rest, continuesName d = true ∨ d = ':' := by
    rw [isMetricName]
    cases text.toList <;> simp
  rw [hscan]
  simp only [metricNames, range, just, oneOf_add, mem_oneOf_mul_kstar, beginsName_iff, continuesName_iff]

end MetricDepot
