import JobMatrix.Yaml.Scalar
import JobMatrix.Yaml.Token.Basic
import JobMatrix.Yaml.Value

/-!
# The events of a value

A value is written as a run of events: scalars, and the starts and ends of collections.

Tags are written by way of mappings: a tagged value counts as a mapping with one entry.  Therefore
the start of a mapping with one entry waits for its key.  A scalar, a sequence, and a mapping with
another number of entries as key announce the mapping; a tagged value or another mapping with one
entry does not, so the start is never written and the events that follow do not fit together.
-/

set_option autoImplicit false

namespace JobMatrix.Yaml

inductive Event
  | scalar (tag : Option String) (style : ScalarStyle) (text : String)
  | sequenceStart (tag : Option String)
  | sequenceEnd
  | mappingStart (tag : Option String)
  | mappingEnd
deriving DecidableEq, Repr

/-- Why a value has no written form. -/
inductive WriteError
  | nestedTag
  /-- A collection ends where a document should start. -/
  | documentExpected
  /-- A collection ends where a node should stand. -/
  | nodeExpected
deriving DecidableEq, Repr

def WriteError.message : WriteError → String
  | nestedTag => "serializing nested enums in YAML is not supported yet"
  | documentExpected => "expected DOCUMENT-START or STREAM-END"
  | nodeExpected => "expected SCALAR, SEQUENCE-START, MAPPING-START, or ALIAS"

namespace Value

/-- The style a text asks for: a literal block if it has line feeds, quotes if it would be given
another type than text, and otherwise none in particular. -/
def textStyle (s : String) : ScalarStyle :=
  if s.toList.contains '\n' then .literal
  else
    match resolvePlain s with
    | .string _ => if isZeroPadded s.toList then .singleQuoted else .plain
    | _ => .singleQuoted

/-- What has been read in front of a value and not been written yet. -/
inductive Pending
  | nothing
  /-- The start of a mapping with one entry. -/
  | start
  | tag (name : String)

namespace Pending

/-- The events to write before a scalar or the start of a collection. -/
def announced : Pending → List Event
  | start => [.mappingStart none]
  | _ => []

/-- The tag to write with a scalar or the start of a collection. -/
def tag? : Pending → Option String
  | tag name => some (if name.startsWith "!" then name else "!" ++ name)
  | _ => none

end Pending

mutual

/-- The events of a value behind what is pending. -/
def eventsAfter (pending : Pending) : Value → Except WriteError (List Event)
  | null => .ok (pending.announced ++ [.scalar pending.tag? .plain "null"])
  | boolean b => .ok (pending.announced ++ [.scalar pending.tag? .plain (toString b)])
  | integer n => .ok (pending.announced ++ [.scalar pending.tag? .plain (toString n)])
  | float x => .ok (pending.announced ++ [.scalar pending.tag? .plain x.scalarText])
  | string s => .ok (pending.announced ++ [.scalar pending.tag? (textStyle s) s])
  | sequence items => do
    let inner ← itemEvents items
    .ok (pending.announced ++ .sequenceStart pending.tag? :: inner ++ [.sequenceEnd])
  | mapping [(key, value)] => do
    let inner ← eventsAfter .nothing value
    match pending with
    | .tag _ => do
      let first ← eventsAfter .nothing key
      .ok (.mappingStart pending.tag? :: first ++ inner ++ [.mappingEnd])
    | _ => do
      let first ← eventsAfter .start key
      .ok (first ++ inner ++ [.mappingEnd])
  | mapping entries => do
    let inner ← entryEvents entries
    .ok (pending.announced ++ .mappingStart pending.tag? :: inner ++ [.mappingEnd])
  | tagged tag value =>
    match pending with
    | .tag _ => .error .nestedTag
    | _ => eventsAfter (.tag (tagName tag)) value

def itemEvents : List Value → Except WriteError (List Event)
  | [] => .ok []
  | item :: items => do
    let first ← eventsAfter .nothing item
    let rest ← itemEvents items
    .ok (first ++ rest)

def entryEvents : List (Value × Value) → Except WriteError (List Event)
  | [] => .ok []
  | (key, value) :: entries => do
    let first ← eventsAfter .nothing key
    let second ← eventsAfter .nothing value
    let rest ← entryEvents entries
    .ok (first ++ second ++ rest)

end

def events (v : Value) : Except WriteError (List Event) := v.eventsAfter .nothing

end Value

end JobMatrix.Yaml
