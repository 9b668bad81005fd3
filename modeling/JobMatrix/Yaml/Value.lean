import JobMatrix.Binary64.Notation
import JobMatrix.Text.Quoted

/-!
# Values of YAML documents

`Value` is what a document says once its scalars have types and its aliases are replaced by what
they stand for.  Mappings keep their entries in writing order; as *keys* two values are the same
when `Value.same` holds, which looks at mappings regardless of order.
-/

set_option autoImplicit false

namespace JobMatrix.Yaml

inductive Value
  | null
  | boolean (b : Bool)
  | integer (n : Int)
  | float (x : Binary64)
  | string (s : String)
  | sequence (items : List Value)
  | mapping (entries : List (Value × Value))
  | tagged (tag : String) (value : Value)

namespace Value

instance : Inhabited Value := ⟨null⟩

/-- A mapping whose keys are texts. -/
def ofFields (fields : List (String × Value)) : Value :=
  .mapping (fields.map fun (name, value) => (.string name, value))

/-- A sequence of texts. -/
def ofTexts (texts : List String) : Value := .sequence (texts.map .string)

/-- Null, with any number of tags in front. -/
def isNull : Value → Bool
  | null => true
  | tagged _ value => value.isNull
  | _ => false

/-! ## Values as keys -/

/-- The name of a tag without the `!` in front; the tag that is only `!` keeps it. -/
def tagName (tag : String) : String :=
  match tag.toList with
  | ['!'] => "!"
  | '!' :: rest => String.ofList rest
  | _ => tag

mutual

/-- Two values are the same key: numbers by value, integers apart from floating-point numbers,
tags by name, and mappings by their entries in any order. -/
def same : Value → Value → Bool
  | null, null => true
  | boolean a, boolean b => a == b
  | integer a, integer b => a == b
  | float a, float b => a.sameNumber b
  | string a, string b => a == b
  | sequence xs, sequence ys => sameItems xs ys
  | mapping xs, mapping ys => xs.length == ys.length && sameEntries xs ys
  | tagged s v, tagged t w => tagName s == tagName t && same v w
  | _, _ => false

def sameItems : List Value → List Value → Bool
  | [], [] => true
  | x :: xs, y :: ys => same x y && sameItems xs ys
  | _, _ => false

/-- Each of the first entries is among the second ones. -/
def sameEntries : List (Value × Value) → List (Value × Value) → Bool
  | [], _ => true
  | (key, value) :: xs, ys =>
    ys.any (fun y => same key y.1 && same value y.2) && sameEntries xs ys

end

/-- How a message about a repeated key names it. -/
def keyDescription : Value → String
  | null => "with null key"
  | boolean b => s!"with key \x60{b}\x60"
  | integer n => s!"with key {n}"
  | float x => s!"with key {x.scalarText}"
  | string s => s!"with key {Text.quoted s}"
  | sequence _ | mapping _ | tagged _ _ => "in YAML map"

end Value

end JobMatrix.Yaml
