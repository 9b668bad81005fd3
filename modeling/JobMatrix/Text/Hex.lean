/-!
# Hexadecimal digits
-/

set_option autoImplicit false

namespace JobMatrix.Text

/-- The lower-case hexadecimal digits of a number. -/
def hexDigits (n : Nat) : List Char := Nat.toDigits 16 n

/-- Digits with zeros in front up to the width. -/
def padded (width : Nat) (digits : List Char) : List Char :=
  List.replicate (width - digits.length) '0' ++ digits

/-- Upper-case hexadecimal digits, at least as many as the width. -/
def upperHex (width n : Nat) : List Char := padded width ((hexDigits n).map Char.toUpper)

end JobMatrix.Text
