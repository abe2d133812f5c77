import MetricDepot.Family.Sample
import MetricDepot.Text.Quoted
/-!
# Families — named groups of samples of one kind

A family carries a name, a help text, a kind, and its samples in order. A family may be
flawed: its name may be no metric name, a label name may be none, or a sample may be of
another kind. `flaw?` finds the first flaw, where the family's own name comes before its
samples, the samples come in order, and of one sample the labels come before the kind.
-/

namespace MetricDepot

-- ── Names ───────────────────────────────────────────────────────────────────

/-- Whether a character may begin a label name. -/
def beginsName (c : Char) : Bool := c.isAlpha || c == '_'

/-- Whether a character may stand inside a label name. -/
def continuesName (c : Char) : Bool := beginsName c || c.isDigit

/-- Whether a text is a label name: a letter or underscore, then letters, digits and
    underscores. Only the letters of ASCII count. -/
def isLabelName (text : String) : Bool :=
  match text.toList with
  | [] => false
  | c :: rest => beginsName c && rest.all continuesName

/-- Whether a text is a metric name, which may use colons as if they were letters. -/
def isMetricName (text : String) : Bool :=
  match text.toList with
  | [] => false
  | c :: rest => (beginsName c || c == ':') && rest.all fun d => continuesName d || d == ':'

-- ── Families ────────────────────────────────────────────────────────────────

/-- A named group of samples. -/
structure Family where
  name : String
  help : String
  kind : Kind
  samples : List Sample
deriving DecidableEq

/-- What can be wrong with a family. -/
inductive Flaw where
  | badName (name : String)
  | badLabel (family label : String)
  | kindMismatch (family : String) (expected found : Kind)
deriving DecidableEq, Repr

/-- The wording of a flaw. -/
def Flaw.message : Flaw → String
  | badName name => "invalid metric name: " ++ Text.quoted name
  | badLabel family label => "invalid label name " ++ Text.quoted label ++ " in family " ++ family
  | kindMismatch family expected found =>
      "family " ++ family ++ " is of kind " ++ expected.name ++ " but contains a " ++ found.name
        ++ " sample"

/-- The first flaw of a sample in a family of the given name and kind. -/
def Sample.flaw? (family : String) (kind : Kind) (s : Sample) : Option Flaw :=
  match s.labels.keys.find? (!isLabelName ·) with
  | some label => some (.badLabel family label)
  | none => if s.value.kind = kind then none else some (.kindMismatch family kind s.value.kind)

namespace Family

/-- The first flaw of a family. -/
def flaw? (f : Family) : Option Flaw :=
  if isMetricName f.name then f.samples.findSome? (·.flaw? f.name f.kind)
  else some (.badName f.name)

/-- Whether a family has no flaw. -/
def isValid (f : Family) : Bool := f.flaw?.isNone

/-- The family, or its first flaw. -/
def validated (f : Family) : Except Flaw Family :=
  match f.flaw? with
  | none => .ok f
  | some flaw => .error flaw

/-- The number of samples. -/
def size (f : Family) : Nat := f.samples.length

/-- The family with only the samples that `keep` accepts. -/
def filter (keep : Sample → Bool) (f : Family) : Family :=
  { f with samples := f.samples.filter keep }

/-- The family with the samples of another behind its own. The kinds must agree; name and
    help stay its own. -/
def join (f g : Family) : Except Flaw Family :=
  if g.kind = f.kind then .ok { f with samples := f.samples ++ g.samples }
  else .error (.kindMismatch f.name f.kind g.kind)

/-- Numeric equality. -/
def equal (f g : Family) : Bool :=
  f.name == g.name && f.help == g.help && f.kind == g.kind
    && f.samples.isEqv g.samples Sample.equal

/-- The family with its NaNs merged. -/
def canonical (f : Family) : Family := { f with samples := f.samples.map Sample.canonical }

end Family

end MetricDepot
