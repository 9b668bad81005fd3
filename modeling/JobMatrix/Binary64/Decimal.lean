import JobMatrix.Binary64.Basic

/-!
# Reading decimal text

`Binary64.ofDecimal` is the number nearest to `digits · 10^exponent`, and `Binary64.parse?` reads
the text of a number: an optional sign, then digits with an optional point (at least one digit on
either side) and an optional exponent, or one of the words `inf`, `infinity` and `nan` in any case.
Too large a number is infinite and too small a one is zero; neither is an error.
-/

set_option autoImplicit false

namespace JobMatrix.Binary64

/-- The number nearest to `digits · 10^exponent`.  Beyond `10^310` every number is infinite, and
`digits` has at most `log2 digits + 1` decimal digits, so below `10^-330` every one is zero. -/
def ofDecimal (negative : Bool) (digits : Nat) (exponent : Int) : Binary64 :=
  if digits = 0 then .finite negative .zero
  else if 310 < exponent then .infinite negative
  else if exponent + (digits.log2 + 1 : Nat) < -330 then .finite negative .zero
  else if 0 ≤ exponent then ofRatio negative (digits * Nat.pow 10 exponent.toNat) 1
  else ofRatio negative digits (Nat.pow 10 (-exponent).toNat)

/-- The value of a decimal digit. -/
def digitValue (c : Char) : Nat := c.toNat - '0'.toNat

/-- The natural number a list of decimal digits writes. -/
def natOfDigits (ds : List Char) : Nat := ds.foldl (fun n c => 10 * n + digitValue c) 0

/-- Reads the exponent behind the digits: nothing, or `e` with an optional sign and digits. -/
def parseExponent? : List Char → Option Int
  | [] => some 0
  | e :: rest =>
    if e = 'e' ∨ e = 'E' then
      let (negative, ds) := match rest with
        | '-' :: ds => (true, ds)
        | '+' :: ds => (false, ds)
        | ds => (false, ds)
      if ds.isEmpty || !ds.all Char.isDigit then none
      else some (if negative then -(natOfDigits ds : Int) else natOfDigits ds)
    else none

/-- Reads an unsigned decimal number. -/
def parseDecimal? (negative : Bool) (cs : List Char) : Option Binary64 :=
  let whole := cs.takeWhile Char.isDigit
  let (fraction, rest) := match cs.dropWhile Char.isDigit with
    | '.' :: rest => (rest.takeWhile Char.isDigit, rest.dropWhile Char.isDigit)
    | rest => ([], rest)
  if whole.isEmpty && fraction.isEmpty then none
  else (parseExponent? rest).map fun exponent =>
    ofDecimal negative (natOfDigits (whole ++ fraction)) (exponent - fraction.length)

/-- Reads an unsigned number or one of the special words. -/
def parseUnsigned? (negative : Bool) (cs : List Char) : Option Binary64 :=
  let word := cs.map Char.toLower
  if word = ['i', 'n', 'f'] ∨ word = ['i', 'n', 'f', 'i', 'n', 'i', 't', 'y'] then
    some (.infinite negative)
  else if word = ['n', 'a', 'n'] then some .nan
  else parseDecimal? negative cs

/-- Reads a number with an optional sign. -/
def parse? : List Char → Option Binary64
  | '-' :: cs => parseUnsigned? true cs
  | '+' :: cs => parseUnsigned? false cs
  | cs => parseUnsigned? false cs

end JobMatrix.Binary64
