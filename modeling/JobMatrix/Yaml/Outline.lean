import JobMatrix.Yaml.Event

/-!
# Outlines

An `Outline` is the tree of a document as it is written: scalars with the style they ask for, and
collections.  `Outline.ofEvents` reads it off a run of events.
-/

set_option autoImplicit false

namespace JobMatrix.Yaml

inductive Outline
  | scalar (tag : Option String) (style : ScalarStyle) (text : String)
  | sequence (tag : Option String) (items : List Outline)
  | mapping (tag : Option String) (entries : List (Outline × Outline))

namespace Outline

/-- A collection that has started and not ended, with what it holds so far, last first. -/
inductive Frame
  | sequence (tag : Option String) (items : List Outline)
  | mapping (tag : Option String) (entries : List (Outline × Outline)) (key : Option Outline)

/-- The documents that are complete, last first, and the collections that are open, innermost
first. -/
structure Progress where
  documents : List Outline
  frames : List Frame

namespace Progress

/-- Puts a node at the place the events have come to. -/
def add (node : Outline) (p : Progress) : Progress :=
  match p.frames with
  | [] => { p with documents := node :: p.documents }
  | .sequence tag items :: frames => { p with frames := .sequence tag (node :: items) :: frames }
  | .mapping tag entries none :: frames =>
    { p with frames := .mapping tag entries (some node) :: frames }
  | .mapping tag entries (some key) :: frames =>
    { p with frames := .mapping tag ((key, node) :: entries) none :: frames }

/-- An end that ends nothing. -/
def misplaced (p : Progress) : WriteError :=
  if p.frames.isEmpty then .documentExpected else .nodeExpected

def step (p : Progress) : Event → Except WriteError Progress
  | .scalar tag style text => .ok (p.add (.scalar tag style text))
  | .sequenceStart tag => .ok { p with frames := .sequence tag [] :: p.frames }
  | .mappingStart tag => .ok { p with frames := .mapping tag [] none :: p.frames }
  | .sequenceEnd =>
    match p.frames with
    | .sequence tag items :: frames =>
      .ok (add (.sequence tag items.reverse) { p with frames })
    | _ => .error p.misplaced
  | .mappingEnd =>
    match p.frames with
    | .mapping tag entries none :: frames =>
      .ok (add (.mapping tag entries.reverse) { p with frames })
    | _ => .error p.misplaced

end Progress

/-- The outline of the one document that the events describe. -/
def ofEvents (events : List Event) : Except WriteError Outline := do
  let p ← events.foldlM Progress.step ⟨[], []⟩
  match p.documents, p.frames with
  | [outline], [] => .ok outline
  | _, _ => .error p.misplaced

end Outline

end JobMatrix.Yaml
