import JobMatrix.Binary64.Basic

/-!
# The fewest digits that read back

`Magnitude.shortest` finds the decimal `digits · 10^exponent` with the fewest digits among those
that round to a given magnitude, and of these the nearest, where a tie goes as asked.  It works on the interval of reals that
round to the magnitude, measured in units of `2^-1076`: the coarsest power of ten with a multiple
inside the interval gives the fewest digits, and if a multiple lies inside, so does one of the two
multiples next to the magnitude itself.
-/

set_option autoImplicit false

namespace JobMatrix.Binary64

/-- A decimal `digits · 10^exponent`. -/
structure ShortDecimal where
  digits : Nat
  exponent : Int
deriving DecidableEq, Repr

/-- Which of two decimals counts that are equally near. -/
inductive Tie
  | toEven
  | up
deriving DecidableEq, Repr

namespace Magnitude

/-- The magnitude and the ends of its rounding interval, in units of `2^-1076`.  Below a power of
two the neighbours are twice as close. -/
def interval (m : Magnitude) : Nat × Nat × Nat :=
  let gap := Nat.pow 2 m.scale
  let below := if m.mantissa = Nat.pow 2 52 ∧ 0 < m.scale then gap else 2 * gap
  (4 * m.units - below, 4 * m.units, 4 * m.units + 2 * gap)

/-- The multiple of `10^exponent` nearest to the magnitude among those that round to it.  The ends of the interval belong to it when the mantissa is even. -/
def onGrid? (m : Magnitude) (tie : Tie) (exponent : Int) : Option Nat :=
  let (low, middle, high) := m.interval
  let stretch := Nat.pow 10 (-exponent).toNat
  let step := Nat.pow 2 1076 * Nat.pow 10 exponent.toNat
  let inside (c : Nat) : Bool :=
    if m.mantissa % 2 = 0 then low * stretch ≤ c * step && c * step ≤ high * stretch
    else low * stretch < c * step && c * step < high * stretch
  let lower := middle * stretch / step
  let upper := lower + 1
  match inside lower, inside upper with
  | false, false => none
  | true, false => some lower
  | false, true => some upper
  | true, true =>
    let twice := 2 * (middle * stretch)
    let sum := (lower + upper) * step
    if twice < sum then some lower
    else if sum < twice then some upper
    else
      match tie with
      | .toEven => some (lower + lower % 2)
      | .up => some upper

/-- Tries ever finer grids, starting with `10^exponent`.  On the grid of `10^-1074` the magnitude
itself has a point. -/
def search (m : Magnitude) (tie : Tie) : Nat → Int → ShortDecimal
  | 0, _ => ⟨m.units * Nat.pow 5 1074, -1074⟩
  | n + 1, exponent =>
    match m.onGrid? tie exponent with
    | some digits => ⟨digits, exponent⟩
    | none => m.search tie n (exponent - 1)

/-- The shortest decimal of a magnitude.  The first grid is coarser than the magnitude, since
`log10 2 < 30103 / 100000 + 1 / 10^7`, and seventeen digits always suffice. -/
def shortest (m : Magnitude) (tie : Tie) : ShortDecimal :=
  if m.mantissa = 0 then ⟨0, 0⟩
  else
    let bits : Int := (m.units.log2 + 1 : Nat) - 1074
    m.search tie 24 ((bits * 30103).fdiv 100000 + 2)

end Magnitude

end JobMatrix.Binary64
