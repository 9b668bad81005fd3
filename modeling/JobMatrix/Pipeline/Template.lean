import JobMatrix.Text.Blank
import JobMatrix.Yaml.Layout
import JobMatrix.Yaml.Read

/-!
# The job template

Hand-written jobs and anchors that are put into every pipeline as they are.  A template that is
blank or null has no content.
-/

set_option autoImplicit false

namespace JobMatrix

structure Template where
  content : Option Yaml.Value

namespace Template

def empty : Template := ⟨none⟩

instance : Inhabited Template := ⟨empty⟩

def isEmpty (t : Template) : Bool := t.content.isNone

/-- The template with the given content. -/
def ofValue (v : Yaml.Value) : Template := if v.isNull then empty else ⟨some v⟩

/-- Reads a template from a text. -/
def ofYaml (text : String) : Except Yaml.ReadError Template :=
  if Text.isBlankText text then .ok empty
  else (Yaml.read Yaml.Decoder.value text).map ofValue

/-- The text of a template; an empty one has none. -/
def render (t : Template) : Except Yaml.WriteError String :=
  match t.content with
  | some v => v.render
  | none => .ok ""

end Template

end JobMatrix
