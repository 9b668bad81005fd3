import JobMatrix.Job.ContainerVersion
import JobMatrix.Pipeline.Error
import JobMatrix.Text.Blank
import JobMatrix.Yaml.Layout

/-!
# Configuration

Settings that a run takes from a file where the command line says nothing.  Every field is
optional in the file, and other fields are refused.
-/

set_option autoImplicit false

namespace JobMatrix

open Yaml

/-- A version, as a number. -/
def ContainerVersion.decoder : Decoder ContainerVersion := fun path node => do
  match ContainerVersion.ofNumber (← Decoder.float path node) with
  | .ok v => pure v
  | .error e => Decode.fail (.rejected e.message)

structure Config where
  containerVersion : Option ContainerVersion := none
  /-- The file of the template. -/
  jobBase : String := "script/gitlabci/job_base.yml"
  output : String := "jobs.yml"
  /-- A log filter. -/
  logLevel : String := "info"
  /-- The matrix is verified before a pipeline is generated. -/
  verify : Bool := true

inductive ConfigError
  | read (path : String) (problem : FileError)
  | parse (path : String) (problem : ReadError)

def ConfigError.message : ConfigError → String
  | read path problem => s!"Failed to read config '{path}': {problem.message}"
  | parse path problem => s!"Invalid config '{path}': {problem.message}"

namespace Config

def fieldNames : List String :=
  ["container_version", "job_base", "output", "log_level", "verify"]

/-- The fields that have been read. -/
structure Partial where
  containerVersion : Option (Option ContainerVersion) := none
  jobBase : Option String := none
  output : Option String := none
  logLevel : Option String := none
  verify : Option Bool := none

/-- A path, as a text. -/
def pathText : Decoder String := Decoder.textAs "path string"

def Partial.field (c : Partial) (name : String) : Decoder Partial := fun path node => do
  if name = "container_version" then
    let version := Decoder.optional ContainerVersion.decoder
    pure { c with containerVersion := ← Decoder.once name c.containerVersion version path node }
  else if name = "job_base" then
    pure { c with jobBase := ← Decoder.once name c.jobBase pathText path node }
  else if name = "output" then
    pure { c with output := ← Decoder.once name c.output pathText path node }
  else if name = "log_level" then
    pure { c with logLevel := ← Decoder.once name c.logLevel Decoder.text path node }
  else if name = "verify" then
    pure { c with verify := ← Decoder.once name c.verify Decoder.boolean path node }
  else Decode.fail (.unknownField name fieldNames)

/-- A field that has not been read has its default. -/
def Partial.finish (c : Partial) : Config :=
  let standard : Config := {}
  { containerVersion := c.containerVersion.getD standard.containerVersion
    jobBase := c.jobBase.getD standard.jobBase
    output := c.output.getD standard.output
    logLevel := c.logLevel.getD standard.logLevel
    verify := c.verify.getD standard.verify }

def decoder : Decoder Config :=
  Decoder.fields "struct Config" {} Partial.field fun c => pure c.finish

/-- Reads a configuration from a text; a blank one leaves all defaults. -/
def ofYaml (text : String) : Except ReadError Config :=
  if Text.isBlankText text then .ok {} else Yaml.read decoder text

def value (c : Config) : Value :=
  .ofFields [
    ("container_version", (c.containerVersion.map fun v => Value.float v.value).getD .null),
    ("job_base", .string c.jobBase), ("output", .string c.output),
    ("log_level", .string c.logLevel), ("verify", .boolean c.verify)]

end Config

end JobMatrix
