/-!
# Blank characters

Texts that people write by hand are read without the blanks around them. A character is blank
when Unicode gives it the property `White_Space`; `trim` takes blanks off both ends and leaves
the inside alone.
-/

namespace ScaleWatch.Text

/-- The ranges of the Unicode property `White_Space`, first and last code point of each. -/
def blankRanges : List (Nat × Nat) :=
  [(0x09, 0x0D), (0x20, 0x20), (0x85, 0x85), (0xA0, 0xA0), (0x1680, 0x1680), (0x2000, 0x200A),
    (0x2028, 0x2029), (0x202F, 0x202F), (0x205F, 0x205F), (0x3000, 0x3000)]

def isBlank (c : Char) : Bool :=
  blankRanges.any fun range => range.1 ≤ c.toNat && c.toNat ≤ range.2

def trimStart (t : List Char) : List Char :=
  t.dropWhile isBlank

def trimEnd (t : List Char) : List Char :=
  (t.reverse.dropWhile isBlank).reverse

def trim (t : List Char) : List Char :=
  trimEnd (trimStart t)

end ScaleWatch.Text
