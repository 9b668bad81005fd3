import JobMatrix.Job.Image
import JobMatrix.Job.Naming
import JobMatrix.Job.Runner
import JobMatrix.Job.Variables
import JobMatrix.Yaml.Layout
import JobMatrix.Yaml.Read

/-!
# Jobs

A `Job` is a name and a body.  `Record.job` derives it from a record, and `Job.ofYaml` and
`Job.value` read and write it as the mapping from its name to its body.
-/

set_option autoImplicit false

namespace JobMatrix

structure JobBody where
  image : String
  script : List String
  stage : String
  tags : List String
  environment : Variables
deriving DecidableEq

structure Job where
  name : String
  body : JobBody
deriving DecidableEq

/-- The script of every job derived from a record. -/
def jobScript : List String :=
  ["source ./script/gitlabci/print_env.sh", "source ./script/gitlab_ci_run.sh"]

/-- The job of a record.  Name, image and variables fail in this order. -/
def Record.job (r : Record) (version : ContainerVersion) (stage : String) :
    Logged JobError Job := do
  let name ← Logged.ofExcept r.jobName
  let image ← Logged.ofExcept (r.image version)
  let environment ← r.environment
  Logged.report
    { level := .debug, origin := .descriptor, message := "built job",
      fields := [("job", .shown name), ("image", .shown image), ("stage", .shown stage)] }
  pure { name, body := { image, script := jobScript, stage, tags := r.runner.tags, environment } }

/-! ## Jobs as documents -/

open Yaml

/-- Variables as a mapping. -/
def Variables.value (v : Variables) : Value :=
  .ofFields (v.entries.map fun (name, text) => (name, .string text))

/-- Variables from a mapping.  If a name repeats, its last value counts. -/
def Variables.decoder : Decoder Variables := fun path node => do
  pure (.ofList (← Decoder.textEntries Decoder.text path node))

namespace JobBody

def value (b : JobBody) : Value :=
  .ofFields [("image", .string b.image), ("script", .ofTexts b.script),
    ("stage", .string b.stage), ("tags", .ofTexts b.tags), ("variables", b.environment.value)]

/-- The fields of a body that have been read. -/
structure Partial where
  image : Option String := none
  script : Option (List String) := none
  stage : Option String := none
  tags : Option (List String) := none
  environment : Option Variables := none

/-- Reads a field.  Fields with other names are passed over. -/
def Partial.field (b : Partial) (name : String) : Decoder Partial := fun path node => do
  if name = "image" then
    pure { b with image := ← Decoder.once name b.image Decoder.text path node }
  else if name = "script" then
    pure { b with script := ← Decoder.once name b.script (Decoder.list Decoder.text) path node }
  else if name = "stage" then
    pure { b with stage := ← Decoder.once name b.stage Decoder.text path node }
  else if name = "tags" then
    pure { b with tags := ← Decoder.once name b.tags (Decoder.list Decoder.text) path node }
  else if name = "variables" then
    pure { b with environment := ← Decoder.once name b.environment Variables.decoder path node }
  else pure b

def Partial.finish (b : Partial) : Decode JobBody := do
  let image ← Decoder.required "image" b.image
  let script ← Decoder.required "script" b.script
  let stage ← Decoder.required "stage" b.stage
  let tags ← Decoder.required "tags" b.tags
  let environment ← Decoder.required "variables" b.environment
  pure { image, script, stage, tags, environment }

def decoder : Decoder JobBody := Decoder.fields "struct JobBody" {} Partial.field Partial.finish

end JobBody

namespace Job

def value (j : Job) : Value := .ofFields [(j.name, j.body.value)]

/-- A job from a mapping with exactly one name. -/
def decoder : Decoder Job := fun path node => do
  let bodies := Bindings.ofList (← Decoder.textEntries JobBody.decoder path node)
  match bodies.entries with
  | [(name, body)] => pure { name, body }
  | entries => Decode.fail (.invalidLength entries.length "a mapping with exactly one job")

/-- Reads a job from a text. -/
def ofYaml (text : String) : Except ReadError Job := Yaml.read decoder text

end Job

end JobMatrix
