/-!
# Blank characters

The characters with the Unicode property `White_Space`, and texts without blanks at either end.
A version or a template file that is blank throughout counts as empty.
-/

set_option autoImplicit false

namespace JobMatrix.Text

/-- The property `White_Space`. -/
def isBlank (c : Char) : Bool :=
  let n := c.toNat
  (9 ≤ n && n ≤ 13) || n == 0x20 || n == 0x85 || n == 0xA0 || n == 0x1680
    || (0x2000 ≤ n && n ≤ 0x200A) || n == 0x2028 || n == 0x2029 || n == 0x202F || n == 0x205F
    || n == 0x3000

/-- Drops the blanks at both ends. -/
def trim (cs : List Char) : List Char :=
  ((cs.dropWhile isBlank).reverse.dropWhile isBlank).reverse

/-- A text with blank characters only. -/
def isBlankText (s : String) : Bool := s.toList.all isBlank

end JobMatrix.Text
