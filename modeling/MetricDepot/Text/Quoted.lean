import MetricDepot.Text.Unshown
/-!
# Quoted — a text as a diagnostic shows it

A diagnostic that names a text puts it between double quotes, so that its end and its
blanks can be seen. Quotes, backslashes, and the controls with a letter of their own are
written by that letter; every other character that cannot be shown is written by its code
point in lower-case hexadecimal. The single quote needs no escape.
-/

namespace MetricDepot.Text

/-- A character behind a backslash. -/
def escape (c : Char) : List Char := [Char.ofNat 0x5C, c]

/-- The lower-case hexadecimal digits of a code point. -/
def hexDigits (code : Nat) : List Char := Nat.toDigits 16 code

/-- A character by its code point. -/
def byCode (c : Char) : List Char :=
  escape 'u' ++ Char.ofNat 0x7B :: (hexDigits c.toNat ++ [Char.ofNat 0x7D])

/-- How one character is shown inside a quotation. -/
def shown (c : Char) : List Char :=
  if c.toNat = 0 then escape '0'
  else if c.toNat = 0x09 then escape 't'
  else if c.toNat = 0x0A then escape 'n'
  else if c.toNat = 0x0D then escape 'r'
  else if c.toNat = 0x22 ∨ c.toNat = 0x5C then escape c
  else if isUnshown c then byCode c
  else [c]

/-- A text between double quotes. -/
def quoted (text : String) : String :=
  String.ofList (Char.ofNat 0x22 :: (text.toList.flatMap shown ++ [Char.ofNat 0x22]))

end MetricDepot.Text
