import JobMatrix.Proofs.Bindings
import JobMatrix.Proofs.Gitlab.Nodes
import JobMatrix.Proofs.Yaml.Decode

/-!
# Reading a pipeline file back

`Contents` is what a pipeline file without a template holds, and `Contents.decoder` reads it off a
document: the stages, the variables, and a job under any other name.  Names may not repeat.

`read_render` is the round trip.  Whatever texts a pipeline is made of, its file is one document,
with the entries of the pipeline in order and nothing else, and the contents are read back from it.
-/

set_option autoImplicit false

namespace JobMatrix.Gitlab

open Yaml Yaml.Node Yaml.Decode Yaml.Decoder

/-- What a pipeline file without a template holds. -/
structure Contents where
  stageLabels : List String
  environment : Variables
  jobs : List Job

namespace Contents

/-- The entries that have been read. -/
structure Partial where
  stageLabels : Option (List String) := none
  environment : Option Variables := none
  jobs : List Job := []

/-- Reads an entry.  What is neither the stages nor the variables is a job. -/
def Partial.field (c : Partial) (name : String) : Decoder Partial := fun path node => do
  if name = "stages" then
    pure { c with stageLabels := ← Decoder.once name c.stageLabels (Decoder.list Decoder.text) path node }
  else if name = "variables" then
    pure { c with environment := ← Decoder.once name c.environment Variables.decoder path node }
  else if (c.jobs.map (·.name)).contains name then fail (.duplicateField name)
  else
    let body ← JobBody.decoder path node
    pure { c with jobs := c.jobs ++ [{ name, body }] }

def Partial.finish (c : Partial) : Decode Contents := do
  let stageLabels ← Decoder.required "stages" c.stageLabels
  let environment ← Decoder.required "variables" c.environment
  pure { stageLabels, environment, jobs := c.jobs }

def decoder : Decoder Contents := Decoder.fields "a pipeline" {} Partial.field Partial.finish

end Contents

/-- What the file of a pipeline without a template holds. -/
def contents (p : Pipeline) : Contents where
  stageLabels := p.stages.map (·.label)
  environment := p.environment
  jobs := p.stages.flatMap (·.jobs)

variable {path : Path}

/-! ## The parts -/

theorem gives_textNode (text : String) : (Decoder.text path (textNode text)).Gives text :=
  gives_textAs "a string" {} .doubleQuoted text

theorem gives_textsNode (texts : List String) :
    (Decoder.list Decoder.text path (textsNode texts)).Gives texts :=
  gives_texts {} texts

theorem gives_variables (v : Variables) : (Variables.decoder path (variablesNode v)).Gives v := by
  have hentries : (Decoder.textEntries Decoder.text path (variablesNode v)).Gives v.entries :=
    gives_textEntries {} fun entry _ => ⟨⟨_, _, rfl⟩, fun _ => gives_textNode entry.2⟩
  have hresult : (Variables.decoder path (variablesNode v)).Gives (Bindings.ofList v.entries) :=
    hentries.bind (gives_pure _)
  rwa [Bindings.ofList_entries] at hresult

theorem gives_body (b : JobBody) : (JobBody.decoder path (.mapping {} (bodyEntries b))).Gives b := by
  refine gives_fields {} (s := ⟨some b.image, some b.script, some b.stage, some b.tags,
    some b.environment⟩) ?_ ?_
  · refine gives_foldEntries_cons ((gives_once rfl (gives_textNode b.image)).bind (gives_pure _)) ?_
    refine gives_foldEntries_cons ((gives_once rfl (gives_textsNode b.script)).bind (gives_pure _)) ?_
    refine gives_foldEntries_cons ((gives_once rfl (gives_textNode b.stage)).bind (gives_pure _)) ?_
    refine gives_foldEntries_cons ((gives_once rfl (gives_textsNode b.tags)).bind (gives_pure _)) ?_
    refine gives_foldEntries_cons
      ((gives_once rfl (gives_variables b.environment)).bind (gives_pure _)) ?_
    exact gives_foldEntries_nil _
  · exact fun _ _ => rfl

/-! ## The jobs -/

/-- The names of the jobs can be keys of one file. -/
structure DistinctNames (p : Pipeline) : Prop where
  nodup : (p.jobs.map (·.name)).Nodup
  ne_stages : ∀ j ∈ p.jobs, j.name ≠ "stages"
  ne_variables : ∀ j ∈ p.jobs, j.name ≠ "variables"

theorem gives_field_job {c : Contents.Partial} {j : Job} (hstages : j.name ≠ "stages")
    (hvariables : j.name ≠ "variables") (hfresh : j.name ∉ c.jobs.map (·.name)) :
    (Contents.Partial.field c j.name path (.mapping {} (bodyEntries j.body))).Gives
      { c with jobs := c.jobs ++ [j] } := by
  have hcontains : (c.jobs.map (·.name)).contains j.name = false := by
    rw [← Bool.not_eq_true, List.contains_iff_mem]
    exact hfresh
  rw [Contents.Partial.field, if_neg hstages, if_neg hvariables, if_neg (ne_true_of_eq_false hcontains)]
  exact (gives_body j.body).bind (gives_pure _)

/-- Jobs are read behind the jobs that have been read before them. -/
theorem gives_foldEntries_jobs {jobs : List Job} (hstages : ∀ j ∈ jobs, j.name ≠ "stages")
    (hvariables : ∀ j ∈ jobs, j.name ≠ "variables") :
    ∀ {c : Contents.Partial}, ((c.jobs ++ jobs).map (·.name)).Nodup →
      (foldEntries "field identifier" Contents.Partial.field path c (jobs.map jobEntry)).Gives
        { c with jobs := c.jobs ++ jobs } := by
  induction jobs with
  | nil =>
    intro c _
    rw [List.append_nil]
    exact gives_foldEntries_nil c
  | cons j jobs ih =>
    intro c hnodup
    have hfresh : j.name ∉ c.jobs.map (·.name) := by
      rw [List.map_append, List.map_cons] at hnodup
      exact fun h => List.nodup_append.1 hnodup |>.2.2 _ h _ List.mem_cons_self rfl
    have happend : c.jobs ++ j :: jobs = (c.jobs ++ [j]) ++ jobs := by
      rw [List.append_assoc, List.singleton_append]
    rw [happend] at hnodup ⊢
    exact gives_foldEntries_cons
      (gives_field_job (hstages j List.mem_cons_self) (hvariables j List.mem_cons_self) hfresh)
      (ih (fun k hk => hstages k (List.mem_cons_of_mem _ hk))
        (fun k hk => hvariables k (List.mem_cons_of_mem _ hk)) hnodup)

theorem gives_contents {p : Pipeline} (hp : DistinctNames p) :
    (Contents.decoder path (fileNode p)).Gives (contents p) := by
  refine gives_fields {} (s := ⟨some p.stageLabels, some p.environment, p.jobs⟩) ?_ ?_
  · refine gives_foldEntries_cons
      ((gives_once rfl (gives_textsNode p.stageLabels)).bind (gives_pure _)) ?_
    refine gives_foldEntries_cons
      ((gives_once rfl (gives_variables p.environment)).bind (gives_pure _)) ?_
    exact gives_foldEntries_jobs hp.ne_stages hp.ne_variables hp.nodup
  · exact fun _ _ => rfl

/-! ## The round trip -/

/-- **A pipeline without a template is read back from its file.**  The file is one document: a
mapping with the stages, the variables and the jobs in order, and nothing else. -/
theorem read_render {p : Pipeline} (htemplate : p.template.content = none) (hp : DistinctNames p)
    (hkeys : ShortFile p) :
    ∃ text d, render p = .ok text ∧ Document.parse text = .ok d ∧ d.root = fileNode p ∧
      Yaml.read Contents.decoder text = .ok (contents p) := by
  have hempty : p.template.render = .ok "" := by rw [Template.render, htemplate]
  have hrender := render_eq hempty
  rw [String.append_empty] at hrender
  obtain ⟨d, hparse, hroot⟩ := parse_render hkeys rfl
  refine ⟨_, d, hrender, hparse, hroot, read_eq hparse ?_⟩
  rw [hroot]
  exact gives_contents hp

/-- A pipeline with texts that need escapes, and an empty collection of each kind. -/
def sample : Pipeline where
  stages := [
    { label := "stage: 0",
      jobs := [
        { name := "job #1\n",
          body := {
            image := "\"image\""
            script := []
            stage := "stage: 0"
            tags := ["- x64", "\u2028"]
            environment := .ofList [(".5", "\\"), ("no", "")] } }] },
    { label := "", jobs := [] }]
  environment := .empty
  template := .empty

theorem read_render_sample :
    ∃ text d, render sample = .ok text ∧ Document.parse text = .ok d ∧ d.root = fileNode sample ∧
      Yaml.read Contents.decoder text = .ok (contents sample) :=
  read_render rfl ⟨by decide, by decide, by decide⟩ ⟨by decide, by decide⟩

end JobMatrix.Gitlab
