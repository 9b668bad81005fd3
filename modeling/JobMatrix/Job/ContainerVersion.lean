import JobMatrix.Binary64.Decimal
import JobMatrix.Binary64.Notation
import JobMatrix.Text.Blank

/-!
# Container versions

The tag of a container image is a number with a fraction, such as `3.2`.  A `ContainerVersion` is
zero or lies between `0.0001` and `10^16`, where numbers are written without an exponent.
-/

set_option autoImplicit false

namespace JobMatrix

namespace ContainerVersion

/-- The number nearest to `0.0001`. -/
def least : Binary64.Magnitude :=
  ⟨0x1A36E2EB1C432D, 1008, by decide, by decide, by decide⟩

/-- The numbers that are versions: the zeros and those from `least` up to `10^16`. -/
def admits (x : Binary64) : Bool :=
  x.isZero || match x with
    | .finite false m => least.units ≤ m.units && m.units < Nat.pow 10 16 * Nat.pow 2 1074
    | _ => false

end ContainerVersion

structure ContainerVersion where
  value : Binary64
  admitted : ContainerVersion.admits value = true
deriving DecidableEq

/-- A number or text that is no container version, as it is shown. -/
structure InvalidContainerVersion where
  shown : String
deriving DecidableEq, Repr

def InvalidContainerVersion.message (e : InvalidContainerVersion) : String :=
  s!"Invalid container version '{e.shown}': expected 0 or a number in [0.0001, 1e16)"

namespace ContainerVersion

/-- The version with the given number. -/
def ofNumber (x : Binary64) : Except InvalidContainerVersion ContainerVersion :=
  if h : admits x = true then .ok ⟨x, h⟩ else .error ⟨x.positional⟩

/-- Reads a version from a text, with blanks around it or not. -/
def ofText (s : String) : Except InvalidContainerVersion ContainerVersion :=
  match Binary64.parse? (Text.trim s.toList) with
  | some x => ofNumber x
  | none => .error ⟨s⟩

/-- The tag of a number: a whole number has the fraction `.0`. -/
def tagOf : Binary64 → String
  | .finite negative m =>
    if m.isWhole then (if negative then "-" else "") ++ toString m.floor ++ ".0"
    else (Binary64.finite negative m).positional
  | x => x.positional

/-- The tag of the images of this version. -/
def tag (v : ContainerVersion) : String := tagOf v.value

end ContainerVersion

end JobMatrix
