import JobMatrix.Yaml.Node
import JobMatrix.Yaml.Scalar
import JobMatrix.Yaml.Value

/-!
# Places in a document and what can be wrong there

A document that is well formed may still not fit the type it is read as.  `DecodeError` says where
and why; its `message` is the path of the place and the text of the cause, or only the text for the
root of the document.
-/

set_option autoImplicit false

namespace JobMatrix.Yaml

/-- The way from the root of a document to a node. -/
inductive Path
  | root
  | index (parent : Path) (i : Nat)
  | key (parent : Path) (name : String)
  /-- The value of a key that is not a scalar. -/
  | unnamed (parent : Path)
deriving DecidableEq, Repr

namespace Path

/-- The place of the value of a key. -/
def child {ρ : Type} (parent : Path) : Node ρ → Path
  | .scalar _ _ text => .key parent text
  | _ => .unnamed parent

/-- Keys are joined by points; the root shows only in front of an index. -/
def text : Path → String
  | root => "."
  | index parent i => s!"{parent.text}[{i}]"
  | key root name => name
  | key parent name => s!"{parent.text}.{name}"
  | unnamed root => "?"
  | unnamed parent => s!"{parent.text}.?"

end Path

/-- What stands at a place where something else is expected. -/
inductive Found
  | scalar (r : Resolved)
  | sequence
  | mapping

def Found.description : Found → String
  | scalar .null => "unit value"
  | scalar (.boolean b) => s!"boolean \x60{b}\x60"
  | scalar (.integer n) => s!"integer \x60{n}\x60"
  | scalar (.wideInteger false n) => s!"integer \x60{n}\x60 as u128"
  | scalar (.wideInteger true n) => s!"integer \x60{n}\x60 as i128"
  | scalar (.float x) => s!"floating point \x60{x.withFraction}\x60"
  | scalar (.string s) => s!"string {Text.quoted s}"
  | sequence => "sequence"
  | mapping => "map"

inductive Cause
  | invalidType (found : Found) (expected : String)
  | invalidValue (text expected : String)
  | invalidLength (length : Nat) (expected : String)
  | missingField (name : String)
  | duplicateField (name : String)
  | unknownField (name : String) (known : List String)
  | duplicateEntry (key : Value)
  /-- The value has the right shape, and the type it is read as refuses it. -/
  | rejected (reason : String)
  | recursionLimit
  | repetitionLimit

namespace Cause

def text : Cause → String
  | invalidType found expected => s!"invalid type: {found.description}, expected {expected}"
  | invalidValue text expected =>
    s!"invalid value: string {Text.quoted text}, expected {expected}"
  | invalidLength length expected => s!"invalid length {length}, expected {expected}"
  | missingField name => s!"missing field \x60{name}\x60"
  | duplicateField name => s!"duplicate field \x60{name}\x60"
  | unknownField name known =>
    let names := ", ".intercalate (known.map fun k => s!"\x60{k}\x60")
    s!"unknown field \x60{name}\x60, expected one of {names}"
  | duplicateEntry key => s!"duplicate entry {key.keyDescription}"
  | rejected reason => reason
  | recursionLimit => "recursion limit exceeded"
  | repetitionLimit => "repetition limit exceeded"

/-- The limits belong to the document and not to a place in it. -/
def hasPlace : Cause → Bool
  | recursionLimit | repetitionLimit => false
  | _ => true

end Cause

/-- A document that does not fit the type it is read as. -/
structure DecodeError where
  place : Option Path
  cause : Cause

namespace DecodeError

/-- Gives an error a place unless it has one. -/
def locate (path : Path) (e : DecodeError) : DecodeError :=
  if e.place.isNone && e.cause.hasPlace then { e with place := some path } else e

def message (e : DecodeError) : String :=
  match e.place with
  | none | some .root => e.cause.text
  | some path => s!"{path.text}: {e.cause.text}"

end DecodeError

end JobMatrix.Yaml
