import JobMatrix.Yaml.Decode.Basic

/-!
# Reading a document as a value

`Decoder.value` reads any node.  A local tag wraps the value it stands in front of.  Collections
may be nested `nestingLimit` levels deep, counted through aliases, so a document that contains
itself is refused.
-/

set_option autoImplicit false

namespace JobMatrix.Yaml.Decoder

open Decode

/-- The number of levels collections may be nested. -/
def nestingLimit : Nat := 128

/-- The local tag in front of a node. -/
def localTag? : Node Nat → Option String
  | .scalar p _ _ | .sequence p _ | .mapping p _ => p.tag.bind Tag.localName?
  | .alias _ => none

/-- The value of a scalar; integers wider than 64 bits have none. -/
def scalarValue (tagTaken : Bool) (p : Properties Nat) (style : ScalarStyle) (text : String) :
    Decode Value :=
  match scalarType tagTaken p.tag style text with
  | .ok .null => pure .null
  | .ok (.boolean b) => pure (.boolean b)
  | .ok (.integer n) => pure (.integer n)
  | .ok (.float x) => pure (.float x)
  | .ok (.string s) => pure (.string s)
  | .ok (.wideInteger signed n) =>
    fail (.invalidType (.scalar (.wideInteger signed n)) "any YAML value")
  | .error cause => fail cause

/-- Reads entries behind those read before.  No key may be there twice. -/
def valueEntries (inner : Decoder Value) (path : Path) :
    List (Value × Value) → List (Node Nat × Node Nat) → Decode (List (Value × Value))
  | seen, [] => pure seen.reverse
  | seen, (keyNode, valueNode) :: rest => do
    let key ← inner path keyNode
    match seen.find? fun entry => entry.1.same key with
    | some entry => fail (.duplicateEntry entry.1)
    | none =>
      let value ← inner (path.child keyNode) valueNode
      valueEntries inner path ((key, value) :: seen) rest

/-- Reads a node, what is inside a collection with `inner?`; without it the limit is reached. -/
def valueWith (inner? : Option (Decoder Value)) : Decoder Value := fun path node => located path do
  let node ← follow node
  let tag? := localTag? node
  let value ←
    match node, inner? with
    | .scalar p style text, _ => scalarValue tag?.isSome p style text
    | .sequence _ items, some inner => .sequence <$> itemsFrom inner path 0 items
    | .mapping _ entries, some inner => .mapping <$> valueEntries inner path [] entries
    | _, _ => fail .recursionLimit
  match tag? with
  | some tag => pure (.tagged tag value)
  | none => pure value

/-- Reads a node with collections at most so many levels deep. -/
def valueWithin : Nat → Decoder Value
  | 0 => valueWith none
  | levels + 1 => valueWith (some (valueWithin levels))

/-- Reads any node. -/
def value : Decoder Value := valueWithin nestingLimit

end JobMatrix.Yaml.Decoder
