import JobMatrix.Job.Descriptor
import JobMatrix.Pipeline.Defaults
import JobMatrix.Pipeline.Error
import JobMatrix.Pipeline.Matrix
import JobMatrix.Pipeline.Template

/-!
# Pipelines

A `Pipeline` has one stage for each wave of a matrix, with the jobs of its records in order, and
the template.  `Pipeline.assemble` fails at the first record that no job can be derived from.
-/

set_option autoImplicit false

namespace JobMatrix

structure Stage where
  label : String
  jobs : List Job
deriving DecidableEq

structure Pipeline where
  stages : List Stage
  environment : Variables
  template : Template

/-- The label of the stage of a wave. -/
def stageLabel (wave : Nat) : String := s!"stage{wave}"

namespace Pipeline

def stageLabels (p : Pipeline) : List String := p.stages.map (·.label)

/-- All jobs, stage by stage. -/
def jobs (p : Pipeline) : List Job := p.stages.flatMap (·.jobs)

def jobCount (p : Pipeline) : Nat := p.stages.foldl (fun n stage => n + stage.jobs.length) 0

/-! ## Assembly -/

/-- The jobs of the records of a wave, the first of which has the given index. -/
def jobsFrom (version : ContainerVersion) (wave : Nat) :
    Nat → List Record → Logged PipelineError (List Job)
  | _, [] => pure []
  | index, r :: rs => do
    let job ← (r.job version (stageLabel wave)).adapt (PipelineError.job wave index)
    let jobs ← jobsFrom version wave (index + 1) rs
    pure (job :: jobs)

/-- The stages of the waves of a matrix, the first of which has the given number. -/
def stagesFrom (version : ContainerVersion) :
    Nat → List Wave → Logged PipelineError (List Stage)
  | _, [] => pure []
  | wave, w :: ws => do
    let label := stageLabel wave
    let jobs ← jobsFrom version wave 0 w
    Logged.report
      { level := .debug, origin := .document, message := "assembled stage",
        fields := [("stage", .shown label), ("jobs", .ofNat jobs.length)] }
    let stages ← stagesFrom version (wave + 1) ws
    pure ({ label, jobs } :: stages)

/-- The pipeline of a matrix. -/
def assemble (matrix : Matrix) (version : ContainerVersion) (template : Template) :
    Logged PipelineError Pipeline := do
  let stages ← stagesFrom version 0 matrix
  let pipeline : Pipeline := { stages, environment := Variables.global, template }
  Logged.report
    { level := .info, origin := .document, message := "assembled pipeline",
      fields := [("stages", .ofNat stages.length), ("jobs", .ofNat pipeline.jobCount)] }
  pure pipeline

end Pipeline

end JobMatrix
