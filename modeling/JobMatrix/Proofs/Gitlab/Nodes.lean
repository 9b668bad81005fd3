import JobMatrix.Proofs.Gitlab.Tokens
import JobMatrix.Proofs.Yaml.Document
import JobMatrix.Proofs.Yaml.Node

/-!
# The nodes of a pipeline file

The tree that a pipeline file describes, part by part as the file is written.  `Reads` and
`ReadsEntries` say that the tokens of a part are read as its nodes, `Numbers` that nothing changes
when anchors are numbered, and `parse_render` puts the parts together.
-/

set_option autoImplicit false

namespace JobMatrix.Gitlab

open Yaml Yaml.Node Yaml.Scanner

variable {ρ : Type}

/-! ## The parts -/

def keyNode (name : String) : Node ρ := .scalar {} (keyStyle name) name

def textNode (text : String) : Node ρ := .scalar {} .doubleQuoted text

def textsNode (texts : List String) : Node ρ := .sequence {} (texts.map textNode)

/-- An entry whose value is a text. -/
def textEntry (entry : String × String) : Node ρ × Node ρ := (keyNode entry.1, textNode entry.2)

def variablesNode (v : Variables) : Node ρ := .mapping {} (v.entries.map textEntry)

def bodyEntries (b : JobBody) : List (Node ρ × Node ρ) :=
  [textEntry ("image", b.image), (keyNode "script", textsNode b.script),
    textEntry ("stage", b.stage), (keyNode "tags", textsNode b.tags),
    (keyNode "variables", variablesNode b.environment)]

def jobEntry (j : Job) : Node ρ × Node ρ := (keyNode j.name, .mapping {} (bodyEntries j.body))

/-- The entries in front of the template. -/
def headEntries (p : Pipeline) : List (Node ρ × Node ρ) :=
  [(keyNode "stages", textsNode (p.stages.map (·.label))),
    (keyNode "variables", variablesNode p.environment)]

/-- The document of a pipeline without a template. -/
def fileNode (p : Pipeline) : Node ρ := .mapping {} (headEntries p ++ p.jobs.map jobEntry)

/-! ## Tokens -/

theorem readsEntries_key {name : String} {ts : List Token} {node : Node String}
    (h : Reads ts node) : ReadsEntries (keyTokens name ++ ts) [(keyNode name, node)] :=
  readsEntries_entry (reads_scalar (keyStyle name) name) h

/-- A list is an entry also when it is empty, and then a flow sequence. -/
theorem readsEntries_list (name : String) (texts : List String) :
    ReadsEntries (listTokens name texts) [(keyNode name, textsNode texts)] := by
  rw [listTokens]
  cases texts with
  | nil => exact readsEntries_key reads_flowSequence
  | cons text texts => exact readsEntries_key (reads_texts (List.cons_ne_nil text texts))

theorem readsEntries_textEntry (entry : String × String) :
    ReadsEntries (textEntryTokens entry) [textEntry entry] :=
  readsEntries_key (reads_scalar .doubleQuoted entry.2)

/-- Variables are an entry also when there are none, and then a flow mapping. -/
theorem readsEntries_variables (v : Variables) :
    ReadsEntries (variablesTokens v) [(keyNode "variables", variablesNode v)] := by
  rw [variablesTokens]
  split
  · rename_i hv
    rw [variablesNode, List.isEmpty_iff.1 hv]
    exact readsEntries_key reads_flowMapping
  · exact readsEntries_key
      (reads_blockMapping (readsEntries_flatMap fun entry _ => readsEntries_textEntry entry))

theorem readsEntries_body (b : JobBody) : ReadsEntries (bodyTokens b) (bodyEntries b) :=
  ((((readsEntries_textEntry _).append (readsEntries_list _ _)).append
    (readsEntries_textEntry _)).append (readsEntries_list _ _)).append (readsEntries_variables _)

/-- A job is one entry, whose value has the five fields of its body. -/
theorem readsEntries_job (j : Job) : ReadsEntries (jobTokens j) [jobEntry j] :=
  readsEntries_key (reads_blockMapping (readsEntries_body j.body))

theorem readsEntries_head (p : Pipeline) :
    ReadsEntries (listTokens "stages" p.stageLabels ++ variablesTokens p.environment)
      (headEntries p) :=
  (readsEntries_list _ _).append (readsEntries_variables _)

/-- The jobs of all stages are entries of one mapping. -/
theorem readsEntries_jobs (p : Pipeline) :
    ReadsEntries (p.stages.flatMap stageTokens) (p.jobs.map jobEntry) := by
  have hjobs : p.stages.flatMap stageTokens = p.jobs.flatMap jobTokens := by
    rw [Pipeline.jobs, List.flatMap_assoc]
    rfl
  rw [hjobs]
  exact readsEntries_flatMap fun j _ => readsEntries_job j

/-! ## Numbers -/

theorem numbers_key (name : String) : Numbers (keyNode name) (keyNode name) :=
  numbers_scalar (keyStyle name) name

theorem numbers_text (text : String) : Numbers (textNode text) (textNode text) :=
  numbers_scalar .doubleQuoted text

theorem numbers_texts (texts : List String) : Numbers (textsNode texts) (textsNode texts) :=
  numbers_sequence fun text _ => numbers_text text

/-- No variable has an anchor. -/
theorem numbers_variables (v : Variables) : Numbers (variablesNode v) (variablesNode v) :=
  numbers_mapping (numbersEntries_map fun entry _ => ⟨numbers_key entry.1, numbers_text entry.2⟩)

theorem numbersEntries_body (b : JobBody) : NumbersEntries (bodyEntries b) (bodyEntries b) :=
  .cons (numbers_key _) (numbers_text _) <| .cons (numbers_key _) (numbers_texts _) <|
    .cons (numbers_key _) (numbers_text _) <| .cons (numbers_key _) (numbers_texts _) <|
      .cons (numbers_key _) (numbers_variables _) numbersEntries_nil

theorem numbersEntries_jobs (p : Pipeline) :
    NumbersEntries (p.jobs.map jobEntry) (p.jobs.map jobEntry) :=
  numbersEntries_map fun j _ => ⟨numbers_key j.name, numbers_mapping (numbersEntries_body j.body)⟩

theorem numbersEntries_head (p : Pipeline) : NumbersEntries (headEntries p) (headEntries p) :=
  .cons (numbers_key _) (numbers_texts _) <| .cons (numbers_key _) (numbers_variables _)
    numbersEntries_nil

/-! ## The file -/

/-- The nodes of a file without a template. -/
theorem ofTokens_render {p : Pipeline} (hp : ShortFile p) {text : String}
    (htext : text = headText p ++ stagesText 0 p.stages) :
    ∃ ls, tokens text = .ok ls ∧ ofTokens ls = .ok (fileNode p) := by
  obtain ⟨ls, hls, htokens⟩ := tokens_render hp htext
  refine ⟨ls, hls, ofTokens_blockMapping ((readsEntries_head p).append (readsEntries_jobs p)) ?_⟩
  rw [htokens, headTokens]
  rfl

/-- **The document of a file without a template.** -/
theorem parse_render {p : Pipeline} (hp : ShortFile p) {text : String}
    (htext : text = headText p ++ stagesText 0 p.stages) :
    ∃ d, Document.parse text = .ok d ∧ d.root = fileNode p := by
  obtain ⟨ls, hls, hnode⟩ := ofTokens_render hp htext
  have hroot := (numbers_mapping ((numbersEntries_head p).append (numbersEntries_jobs p))).number []
  exact ⟨_, Document.parse_eq hls hnode hroot, rfl⟩

end JobMatrix.Gitlab
