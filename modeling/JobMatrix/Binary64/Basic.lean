/-!
# Binary64 numbers as exact dyadic rationals

Versions of containers and of the CUDA toolkit are compared, scaled and printed as IEEE 754
binary64 numbers.  Every finite one is `± mantissa · 2^(scale - 1074)`, so a magnitude is a natural
number of *units* of `2^-1074`, and order, scaling and rounding are arithmetic on `Nat`:

* `Binary64.Magnitude` holds the canonical pair, and `Magnitude.units` the natural number it
  stands for;
* `Binary64.ofBits` and `Binary64.toBits` are the interchange format;
* `Binary64.ofRatio` rounds a quotient to the nearest magnitude, ties to even.
-/

set_option autoImplicit false

namespace JobMatrix

/-- A finite magnitude `mantissa · 2^(scale - 1074)`, in the one form the format stores: a mantissa
below `2^52` goes with scale zero only. -/
structure Binary64.Magnitude where
  mantissa : Nat
  scale : Nat
  mantissa_lt : mantissa < Nat.pow 2 53
  scale_le : scale ≤ 2045
  canonical : mantissa < Nat.pow 2 52 → scale = 0
deriving DecidableEq

/-- A binary64 number.  Zeros keep their sign; the payload of a `nan` does not matter here. -/
inductive Binary64
  | finite (negative : Bool) (magnitude : Binary64.Magnitude)
  | infinite (negative : Bool)
  | nan
deriving DecidableEq

namespace Binary64

namespace Magnitude

/-- The number of units of `2^-1074`. -/
def units (m : Magnitude) : Nat := m.mantissa * Nat.pow 2 m.scale

def zero : Magnitude := ⟨0, 0, by decide, by decide, by decide⟩

instance : Inhabited Magnitude := ⟨zero⟩

/-- A magnitude is a whole number when its units are a multiple of `2^1074`. -/
def isWhole (m : Magnitude) : Bool := m.units % Nat.pow 2 1074 == 0

/-- The whole part. -/
def floor (m : Magnitude) : Nat := m.units / Nat.pow 2 1074

end Magnitude

instance : Inhabited Binary64 := ⟨.nan⟩

def isNegative : Binary64 → Bool
  | finite negative _ => negative
  | infinite negative => negative
  | nan => false

def isFinite : Binary64 → Bool
  | finite _ _ => true
  | _ => false

/-- Both zeros are zero. -/
def isZero : Binary64 → Bool
  | finite _ m => m.mantissa == 0
  | _ => false

/-- Equality of numbers, with the two zeros equal.  Any `nan` counts as the same key. -/
def sameNumber (a b : Binary64) : Bool := (a.isZero && b.isZero) || a == b

/-! ## Rounding -/

/-- The integer nearest to `num / den`, a tie going to the even neighbour. -/
def roundHalfEven (num den : Nat) : Nat :=
  let q := num / den
  let r := num % den
  if 2 * r < den then q
  else if den < 2 * r then q + 1
  else q + q % 2

/-- The number with the given mantissa and scale; infinite when no magnitude has them. -/
def ofParts (negative : Bool) (mantissa scale : Nat) : Binary64 :=
  if h : mantissa < Nat.pow 2 53 ∧ scale ≤ 2045 ∧ (mantissa < Nat.pow 2 52 → scale = 0) then
    .finite negative ⟨mantissa, scale, h.1, h.2.1, h.2.2⟩
  else
    .infinite negative

/-- The number nearest to `units / (den · 2^1074)`.  The scale is the least one under which the
mantissa has at most 53 bits; a mantissa rounded up to 54 bits moves to the next scale. -/
def ofUnitRatio (negative : Bool) (units den : Nat) : Binary64 :=
  let scale := (units / den).log2 + 1 - 53
  let mantissa := roundHalfEven units (den * Nat.pow 2 scale)
  if mantissa < Nat.pow 2 53 then ofParts negative mantissa scale
  else ofParts negative (mantissa / 2) (scale + 1)

/-- The number nearest to `num / den`. -/
def ofRatio (negative : Bool) (num den : Nat) : Binary64 :=
  ofUnitRatio negative (num * Nat.pow 2 1074) den

/-- Multiplication by a natural number, correctly rounded. -/
def scaleBy (factor : Nat) : Binary64 → Binary64
  | finite negative m => ofUnitRatio negative (m.units * factor) 1
  | x => x

/-- The integer a finite number is truncated to, toward zero. -/
def truncate? : Binary64 → Option Int
  | finite false m => some m.floor
  | finite true m => some (-(m.floor : Int))
  | _ => none

/-! ## The interchange format -/

/-- The number whose interchange format is the 64-bit word `bits`. -/
def ofBits (bits : Nat) : Binary64 :=
  let negative := bits / Nat.pow 2 63 % 2 == 1
  let field := bits / Nat.pow 2 52 % Nat.pow 2 11
  let fraction := bits % Nat.pow 2 52
  if field = 2047 then
    if fraction = 0 then .infinite negative else .nan
  else if field = 0 then ofParts negative fraction 0
  else ofParts negative (Nat.pow 2 52 + fraction) (field - 1)

/-- The 64-bit word of a number.  The leading bit of a normal mantissa carries into the exponent
field, so one sum serves normal and subnormal magnitudes. -/
def toBits : Binary64 → Nat
  | finite negative m =>
    (if negative then Nat.pow 2 63 else 0) + m.scale * Nat.pow 2 52 + m.mantissa
  | infinite negative => (if negative then Nat.pow 2 63 else 0) + 2047 * Nat.pow 2 52
  | nan => 4095 * Nat.pow 2 51

end Binary64

end JobMatrix
