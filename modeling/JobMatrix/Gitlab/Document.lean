import JobMatrix.Gitlab.Scalar
import JobMatrix.Pipeline.Document

/-!
# Pipeline files

The layout of the file of a pipeline is fixed: the stages, the global variables, the template, and
for each stage a separating comment and its jobs, in order.
-/

set_option autoImplicit false

namespace JobMatrix.Gitlab

/-- Variables at an indentation. -/
def variablesText (indent : String) (v : Variables) : String :=
  if v.isEmpty then indent ++ "variables: \x7b\x7d\n"
  else
    indent ++ "variables:\n"
      ++ String.join (v.entries.map fun (name, value) =>
        indent ++ "  " ++ key name ++ ": " ++ quote value ++ "\n")

/-- A list of texts at an indentation. -/
def listText (indent name : String) (items : List String) : String :=
  if items.isEmpty then indent ++ name ++ ": []\n"
  else
    indent ++ name ++ ":\n" ++ String.join (items.map fun item => indent ++ "- " ++ quote item ++ "\n")

/-- A job, as a key with a mapping. -/
def jobText (j : Job) : String :=
  key j.name ++ ":\n"
    ++ "  image: " ++ quote j.body.image ++ "\n"
    ++ listText "  " "script" j.body.script
    ++ "  stage: " ++ quote j.body.stage ++ "\n"
    ++ listText "  " "tags" j.body.tags
    ++ variablesText "  " j.body.environment

/-- The comment in front of the jobs of a stage. -/
def separator (wave : Nat) : String := s!"# <<<<<<<<<<<<< stage {wave} >>>>>>>>>>>>>\n"

/-- The jobs of a stage behind their separator. -/
def stageText (wave : Nat) (s : Stage) : String :=
  separator wave ++ "\n" ++ String.join (s.jobs.map fun j => jobText j ++ "\n")

/-- The stages of a pipeline, the first of which has the given number. -/
def stagesText : Nat → List Stage → String
  | _, [] => ""
  | wave, s :: stages => stageText wave s ++ stagesText (wave + 1) stages

/-- The text of a pipeline file; the template may have none. -/
def render (p : Pipeline) : Except PipelineError String :=
  match p.template.render with
  | .error e => .error (.yaml e)
  | .ok template =>
    .ok (listText "" "stages" p.stageLabels ++ "\n"
      ++ variablesText "" p.environment ++ "\n"
      ++ template
      ++ stagesText 0 p.stages)

end JobMatrix.Gitlab
