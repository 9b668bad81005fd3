import JobMatrix.Files.Access
import JobMatrix.Job.Error
import JobMatrix.Yaml.Event
import JobMatrix.Yaml.Read

/-!
# What can go wrong in a run
-/

set_option autoImplicit false

namespace JobMatrix

/-- Why a file cannot be used. -/
inductive FileProblem
  | access (e : FileError)
  | content (e : Yaml.ReadError)

def FileProblem.message : FileProblem → String
  | access e => e.message
  | content e => e.message

inductive PipelineError
  /-- No job can be derived from the record at a position of the matrix. -/
  | job (wave index : Nat) (source : JobError)
  | input (path : String) (problem : FileProblem)
  | template (path : String) (problem : FileProblem)
  | output (path : String) (problem : FileError)
  /-- The template cannot be written. -/
  | yaml (e : Yaml.WriteError)
  /-- The output takes no more. -/
  | outputFull

def PipelineError.message : PipelineError → String
  | job wave index source => s!"Job {index} of stage{wave} is invalid: {source.message}"
  | input path problem => s!"Failed to read job matrix '{path}': {problem.message}"
  | template path problem => s!"Failed to read job template '{path}': {problem.message}"
  | output path problem => s!"Failed to write pipeline '{path}': {problem.message}"
  | yaml e => s!"YAML error: {e.message}"
  | outputFull => "IO error: failed to write whole buffer"

end JobMatrix
