import JobMatrix.Binary64.Shortest

/-!
# Writing numbers

Three written forms of a number, all with the fewest digits that read back:

* `Binary64.positional` never uses an exponent, and writes a whole number without a fraction;
* `Binary64.withFraction` is the same with a fraction always, `1.0` for one;
* `Binary64.scalarText` is the form in YAML documents: positional from `10^-5` up to `10^16` and
  scientific outside, with `.inf`, `-.inf` and `.nan`.

Of two decimals that are equally near the first two forms take the greater, and the last the even
one.
-/

set_option autoImplicit false

namespace JobMatrix.Binary64

/-- The digits of a natural number. -/
def digitsOf (n : Nat) : List Char := Nat.toDigits 10 n

/-- The digits of a short decimal in positional notation, with at least one digit before the
point and none behind it unless needed. -/
def ShortDecimal.positional (d : ShortDecimal) : List Char :=
  let ds := digitsOf d.digits
  if 0 ≤ d.exponent then ds ++ List.replicate d.exponent.toNat '0'
  else
    let places := (-d.exponent).toNat
    if places < ds.length then
      ds.take (ds.length - places) ++ '.' :: ds.drop (ds.length - places)
    else '0' :: '.' :: (List.replicate (places - ds.length) '0' ++ ds)

/-- The digits of a short decimal in scientific notation: the point after the first digit, and an
exponent that is signed only when negative. -/
def ShortDecimal.scientific (d : ShortDecimal) : List Char :=
  match digitsOf d.digits with
  | [] => []
  | first :: more =>
    let power := d.exponent + more.length
    let fraction := if more.isEmpty then [] else '.' :: more
    first :: fraction ++ 'e' :: (toString power).toList

def signed (negative : Bool) (cs : List Char) : String :=
  String.ofList (if negative then '-' :: cs else cs)

/-- Positional notation without an exponent. -/
def positional : Binary64 → String
  | finite negative m => signed negative (m.shortest .up).positional
  | infinite negative => signed negative ['i', 'n', 'f']
  | nan => "NaN"

/-- Positional notation in which a whole number ends in `.0`. -/
def ShortDecimal.withFraction (d : ShortDecimal) : List Char :=
  let cs := d.positional
  if cs.contains '.' then cs else cs ++ ['.', '0']

/-- Positional notation with a fraction always. -/
def withFraction : Binary64 → String
  | finite negative m => signed negative (m.shortest .up).withFraction
  | x => x.positional

/-- The notation of YAML documents. -/
def scalarText : Binary64 → String
  | finite negative m =>
    let d := m.shortest .toEven
    let point : Int := d.exponent + (digitsOf d.digits).length
    signed negative (if -5 < point ∧ point ≤ 16 then d.withFraction else d.scientific)
  | infinite negative => signed negative ['.', 'i', 'n', 'f']
  | nan => ".nan"

end JobMatrix.Binary64
