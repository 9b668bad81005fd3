import JobMatrix.Yaml.Decode.Value

/-!
# Reading a text

`Yaml.read` joins the two stages: a text is first read as a document and the document then as a
type.  A text that is no document fails as `malformed`, even if what precedes the fault does not
fit the type either.
-/

set_option autoImplicit false

namespace JobMatrix.Yaml

inductive ReadError
  | malformed (e : SyntaxError)
  | mismatched (e : DecodeError)

def ReadError.message : ReadError → String
  | malformed e => e.message
  | mismatched e => e.message

/-- Reads the root of a document. -/
def Document.decode {α : Type} (decoder : Decoder α) (d : Document) : Except DecodeError α :=
  ((decoder .root d.root).run d).run' 0

/-- Reads a text as the type of the decoder. -/
def read {α : Type} (decoder : Decoder α) (text : String) : Except ReadError α :=
  match Document.parse text with
  | .error e => .error (.malformed e)
  | .ok d => (d.decode decoder).mapError .mismatched

end JobMatrix.Yaml
