/-!
# Blanks — white space at the edges of a text

White space is a property of twenty-five characters, not only of those that ASCII has.
`trim` takes it off both ends of a text and leaves it alone inside.
-/

namespace MetricDepot.Text

/-- The first and the last code point of each range of white space. -/
def blankRanges : List (Nat × Nat) :=
  [(0x9, 0xD), (0x20, 0x20), (0x85, 0x85), (0xA0, 0xA0), (0x1680, 0x1680), (0x2000, 0x200A),
    (0x2028, 0x2029), (0x202F, 0x202F), (0x205F, 0x205F), (0x3000, 0x3000)]

/-- Whether a character is white space. -/
def isBlank (c : Char) : Bool :=
  blankRanges.any fun range => range.1 ≤ c.toNat && c.toNat ≤ range.2

/-- The characters without the white space behind them. -/
def trimRight (cs : List Char) : List Char := (cs.reverse.dropWhile isBlank).reverse

/-- The characters without the white space around them. -/
def trim (cs : List Char) : List Char := trimRight (cs.dropWhile isBlank)

end MetricDepot.Text
