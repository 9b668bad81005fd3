import JobMatrix.Gitlab.Output
import JobMatrix.Pipeline.Verification

/-!
# Generating a pipeline file

`generate` is a whole run: it reads a matrix, verifies it, reads the template, assembles the
pipeline and saves it.  Nothing is written unless all steps before succeed.
-/

set_option autoImplicit false

namespace JobMatrix

variable {m : Type → Type} [Monad m]

/-! ## Reading the inputs -/

/-- Reads and parses a file. -/
def FileAccess.load {α : Type} (files : FileAccess m) (parse : String → Except Yaml.ReadError α)
    (path : String) : m (Except FileProblem α) := do
  match ← files.readText path with
  | .error e => pure (.error (.access e))
  | .ok text => pure ((parse text).mapError .content)

/-- Reads a matrix file. -/
def Matrix.load (host : Host m) (path : String) : m (Except PipelineError Matrix) := do
  match ← host.files.load Matrix.ofYaml path with
  | .error e => pure (.error (.input path e))
  | .ok matrix =>
    host.report
      { level := .debug, origin := .matrix, message := "loaded job matrix",
        fields := [("path", .shown path), ("waves", .ofNat matrix.length),
          ("jobs", .ofNat (Matrix.jobCount matrix))] }
    pure (.ok matrix)

/-- Reads a template file. -/
def Template.load (host : Host m) (path : String) : m (Except PipelineError Template) := do
  match ← host.files.load Template.ofYaml path with
  | .error e => pure (.error (.template path e))
  | .ok template =>
    host.report
      { level := .debug, origin := .template, message := "loaded job template",
        fields := [("path", .shown path), ("empty", .shown (toString template.isEmpty))] }
    pure (.ok template)

/-! ## The run -/

/-- What to generate from, and where to. -/
structure GenerateOptions where
  matrix : String
  containerVersion : ContainerVersion
  jobBase : String
  output : String
  verify : Bool

/-- The options on one line. -/
def GenerateOptions.text (o : GenerateOptions) : String :=
  "GenerateOptions \x7b matrix: " ++ Text.quoted o.matrix
    ++ ", container_version: ContainerVersion(" ++ o.containerVersion.tag
    ++ "), job_base: " ++ Text.quoted o.jobBase ++ ", output: " ++ Text.quoted o.output
    ++ ", verify: " ++ toString o.verify ++ " \x7d"

/-- What a run has written. -/
structure GenerateSummary where
  stages : Nat
  jobs : Nat
deriving DecidableEq, Repr

inductive GenerateError
  | pipeline (e : PipelineError)
  | verificationFailed (findings : Nat)
  | assemblyFailed (e : PipelineError)

/-- A failure and its causes, the last of which is the first that went wrong. -/
def PipelineError.chain (e : PipelineError) : List String :=
  match e with
  | .job _ _ source => [e.message, source.message]
  | _ => [e.message]

def GenerateError.chain : GenerateError → List String
  | pipeline e => e.chain
  | verificationFailed findings =>
    [s!"job matrix verification failed with {findings} finding(s), nothing written"]
  | assemblyFailed e => "Failed to assemble pipeline, nothing written" :: e.chain

/-- Verifies a matrix, or says that it does not. -/
def verifyOrSkip (host : Host m) (matrix : Matrix) (verify : Bool) :
    m (Except GenerateError Unit) := do
  if verify then
    let traced := matrix.verify
    traced.events.forM host.report
    if traced.value.passed then pure (.ok ())
    else pure (.error (.verificationFailed traced.value.findings.length))
  else
    host.report
      { level := .warn, origin := .generation, message := "matrix verification skipped",
        fields := [] }
    pure (.ok ())

/-- Generates a pipeline file. -/
def generate (host : Host m) (o : GenerateOptions) :
    m (Except GenerateError GenerateSummary) := ExceptT.run do
  host.report
    { level := .debug, origin := .generation, message := "generating pipeline",
      fields := [("options", .shown o.text)] }
  let matrix ← ExceptT.adapt GenerateError.pipeline (ExceptT.mk (Matrix.load host o.matrix))
  ExceptT.mk (verifyOrSkip host matrix o.verify)
  let template ← ExceptT.adapt GenerateError.pipeline (ExceptT.mk (Template.load host o.jobBase))
  let pipeline ← ExceptT.adapt GenerateError.assemblyFailed
    (ExceptT.mk (host.run (Pipeline.assemble matrix o.containerVersion template)))
  ExceptT.adapt GenerateError.pipeline (ExceptT.mk (Gitlab.save host pipeline o.output))
  pure { stages := pipeline.stages.length, jobs := pipeline.jobCount }

end JobMatrix
