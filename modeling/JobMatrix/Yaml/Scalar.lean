import JobMatrix.Binary64.Decimal

/-!
# The types of plain scalars

`resolvePlain` gives a plain scalar its type by its text, following the core schema: null, booleans,
integers with an optional base, floating-point numbers, and texts otherwise.  A number with a
leading zero that has only decimal digits is a text.
-/

set_option autoImplicit false

namespace JobMatrix.Yaml

/-- A scalar with its type.  Integers outside the 64-bit words are kept apart, together with
whether they fit an unsigned word of 128 bits. -/
inductive Resolved
  | null
  | boolean (b : Bool)
  | integer (n : Int)
  | wideInteger (signed : Bool) (n : Int)
  | float (x : Binary64)
  | string (s : String)
deriving DecidableEq

/-- The spellings of null, apart from the empty text. -/
def isNullText (s : String) : Bool := ["null", "Null", "NULL", "~"].contains s

def parseBoolean? (s : String) : Option Bool :=
  if ["true", "True", "TRUE"].contains s then some true
  else if ["false", "False", "FALSE"].contains s then some false
  else none

/-- The value of a digit in a base up to sixteen. -/
def baseDigit? (base : Nat) (c : Char) : Option Nat :=
  let value := if c.isDigit then some (c.toNat - '0'.toNat)
    else if 'a' ≤ c.toLower ∧ c.toLower ≤ 'f' then some (c.toLower.toNat - 'a'.toNat + 10)
    else none
  value.filter (· < base)

/-- The number a nonempty list of digits writes. -/
def parseDigits? (base : Nat) : List Char → Option Nat
  | [] => none
  | cs => cs.foldlM (fun n c => (baseDigit? base c).map (base * n + ·)) 0

/-- A sign and then decimal digits only, of which there are several and the first is zero. -/
def isZeroPadded (cs : List Char) : Bool :=
  let digits := match cs with
    | '-' :: ds => ds
    | '+' :: ds => ds
    | ds => ds
  match digits with
  | '0' :: d :: ds => (d :: ds).all Char.isDigit
  | _ => false

/-- A natural number with an optional base. -/
def parseBased? : List Char → Option Nat
  | '0' :: 'x' :: ds => parseDigits? 16 ds
  | '0' :: 'o' :: ds => parseDigits? 8 ds
  | '0' :: 'b' :: ds => parseDigits? 2 ds
  | ds => parseDigits? 10 ds

/-- An integer with an optional sign and an optional base. -/
def parseInteger? (s : String) : Option Int :=
  let cs := s.toList
  if isZeroPadded cs then none
  else
    match cs with
    | '-' :: ds => (parseBased? ds).map fun n => -(n : Int)
    | '+' :: ds => (parseBased? ds).map fun n => (n : Int)
    | ds => (parseBased? ds).map fun n => (n : Int)

/-- An integer by the word that holds it. -/
def Resolved.ofInteger? (n : Int) : Option Resolved :=
  if -(Nat.pow 2 63 : Nat) ≤ n ∧ n < (Nat.pow 2 64 : Nat) then some (.integer n)
  else if 0 ≤ n ∧ n < (Nat.pow 2 128 : Nat) then some (.wideInteger false n)
  else if -(Nat.pow 2 127 : Nat) ≤ n ∧ n < 0 then some (.wideInteger true n)
  else none

/-- A floating-point number: a finite decimal number, or infinity or not-a-number behind a point. -/
def parseFloat? (s : String) : Option Binary64 :=
  if [".inf", ".Inf", ".INF", "+.inf", "+.Inf", "+.INF"].contains s then some (.infinite false)
  else if ["-.inf", "-.Inf", "-.INF"].contains s then some (.infinite true)
  else if [".nan", ".NaN", ".NAN"].contains s then some .nan
  else
    (Binary64.parse? s.toList).filter Binary64.isFinite

/-- The type of a plain scalar. -/
def resolvePlain (s : String) : Resolved :=
  if s.isEmpty || isNullText s then .null
  else
    match parseBoolean? s with
    | some b => .boolean b
    | none =>
      match (parseInteger? s).bind Resolved.ofInteger? with
      | some r => r
      | none =>
        if isZeroPadded s.toList then .string s
        else
          match parseFloat? s with
          | some x => .float x
          | none => .string s

end JobMatrix.Yaml
