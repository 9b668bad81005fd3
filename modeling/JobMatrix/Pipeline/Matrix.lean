import JobMatrix.Job.Record
import JobMatrix.Yaml.Read

/-!
# The job matrix

A matrix is a list of waves, and a wave a list of records whose jobs run in the same stage.
`Matrix.ofYaml` reads one from a text.
-/

set_option autoImplicit false

namespace JobMatrix

open Yaml

/-- The records of one stage, in order. -/
abbrev Wave := List Record

abbrev Matrix := List Wave

/-- A place in a matrix. -/
structure Position where
  wave : Nat
  index : Nat
deriving DecidableEq, Repr

def Position.text (p : Position) : String := s!"stage{p.wave} job {p.index}"

namespace Parameter

/-- A parameter is written as a pair of texts. -/
def decoder : Decoder Parameter := fun path node => do
  let (name, version) ← Decoder.textPair path node
  pure { name, version }

end Parameter

/-- A record, as the mapping from its keys to their parameters.  A mapping that is no record is
refused at the place of the list it stands in. -/
def Record.decoder : Decoder Record := fun path node => do
  let entries ← Decoder.textEntries Parameter.decoder path node
  match Record.ofBindings (.ofList entries) with
  | .ok r => pure r
  | .error e => Decode.fail (.rejected e.message)

namespace Matrix

def decoder : Decoder Matrix := Decoder.list (Decoder.list Record.decoder)

/-- Reads a matrix from a text. -/
def ofYaml (text : String) : Except ReadError Matrix := Yaml.read decoder text

/-- The number of records. -/
def jobCount (m : Matrix) : Nat := m.foldl (fun n wave => n + wave.length) 0

/-- The records with their positions. -/
def positioned (m : Matrix) : List (Position × Record) :=
  m.zipIdx.flatMap fun (wave, i) => wave.zipIdx.map fun (record, j) => (⟨i, j⟩, record)

end Matrix

end JobMatrix
