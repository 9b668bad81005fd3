import JobMatrix.Proofs.Gitlab.Nodes
import JobMatrix.Proofs.Gitlab.PlainKey
import JobMatrix.Proofs.Yaml.Value

/-!
# The values of a pipeline file

What the nodes of a pipeline file are read as when a file is read as a value.  A plain key that
starts with a letter is read as a text.
-/

set_option autoImplicit false

namespace JobMatrix.Gitlab

open Yaml Yaml.Decode Yaml.Decoder

variable {path : Path}

/-! ## Keys -/

/-- The text starts with a letter. -/
def StartsWithLetter (name : String) : Prop := name.toList.head?.any Char.isAlpha = true

instance (name : String) : Decidable (StartsWithLetter name) :=
  inferInstanceAs (Decidable (name.toList.head?.any Char.isAlpha = true))

/-- A number behind a point starts with no letter. -/
theorem StartsWithLetter.not_isPointNumber {name : String} (hletter : StartsWithLetter name) :
    ¬IsPointNumber name := by
  rintro (hword | ⟨⟨ds, es, hname, -⟩, -⟩)
  · have hall : ∀ word ∈ pointWords, ¬StartsWithLetter word := by decide
    exact hall name hword hletter
  · rw [StartsWithLetter, hname] at hletter
    cases hletter

theorem resolvePlain_key {name : String} (hplain : isPlainKey name = true)
    (hletter : StartsWithLetter name) : resolvePlain name = .string name :=
  (resolvePlain_key_iff hplain).2 hletter.not_isPointNumber

/-- A scalar without a tag, with the value of its type. -/
theorem gives_of_scalarValue {inner? : Option (Decoder Value)} {style : ScalarStyle} {text : String}
    {v : Value} (h : (scalarValue false {} style text).Gives v) :
    (valueWith inner? path (.scalar {} style text)).Gives v := by
  refine Gives.located path ((gives_pure _).bind ?_)
  cases inner? <;> exact h.bind (gives_pure _)

/-- A text without a tag. -/
theorem gives_scalar {inner? : Option (Decoder Value)} {style : ScalarStyle} {text : String}
    (h : style = .plain → resolvePlain text = .string text) :
    (valueWith inner? path (.scalar {} style text)).Gives (.string text) := by
  refine gives_of_scalarValue ?_
  have htype : scalarType false none style text = .ok (.string text) := by
    rw [scalarType]
    split
    · rw [h ‹_›]
    · rfl
  rw [scalarValue]
  rw [htype]
  exact gives_pure _

theorem gives_keyNode {inner? : Option (Decoder Value)} {name : String}
    (hletter : StartsWithLetter name) :
    (valueWith inner? path (keyNode name)).Gives (.string name) := by
  refine gives_scalar fun hstyle => resolvePlain_key ?_ hletter
  rw [keyStyle] at hstyle
  split at hstyle
  · assumption
  · cases hstyle

/-! ## The parts -/

variable {n : Nat}

theorem gives_within_key {name : String} (hletter : StartsWithLetter name) :
    (valueWithin n path (keyNode name)).Gives (.string name) := by
  cases n <;> exact gives_keyNode hletter

theorem gives_within_text (text : String) :
    (valueWithin n path (textNode text)).Gives (.string text) := by
  cases n <;> exact gives_scalar fun h => by cases h

theorem gives_within_texts (texts : List String) :
    (valueWithin (n + 1) path (textsNode texts)).Gives (.ofTexts texts) := by
  have hitems : ∀ i, (itemsFrom (valueWithin n) path i (texts.map textNode)).Gives
      (texts.map .string) := by
    induction texts with
    | nil => exact fun _ => gives_pure []
    | cons text texts ih =>
      exact fun i => (gives_within_text text).bind ((ih (i + 1)).bind (gives_pure _))
  exact Gives.located path ((gives_pure _).bind ((hitems 0).map.bind (gives_pure _)))

theorem gives_within_mapping {entries : List (Node Nat × Node Nat)} {es : List (Value × Value)}
    (h : (valueEntries (valueWithin n) path [] entries).Gives es) :
    (valueWithin (n + 1) path (.mapping {} entries)).Gives (.mapping es) :=
  fun d k => run_valueWith_mapping.2 ⟨es, h d k, rfl⟩

theorem same_string (a b : String) : (Value.string a).same (.string b) = (a == b) := by
  rw [Value.same]

/-- A text is the same key as itself only. -/
theorem same_string_eq_false_iff {v : Value} {name : String} :
    v.same (.string name) = false ↔ v ≠ .string name := by
  cases v with
  | string s =>
    rw [same_string, beq_eq_false_iff_ne, ne_eq, ne_eq, Value.string.injEq]
  | _ => simp [Value.same]

theorem string_same_eq_false_iff {v : Value} {name : String} :
    (Value.string name).same v = false ↔ v ≠ .string name := by
  cases v with
  | string s =>
    rw [same_string, beq_eq_false_iff_ne, ne_eq, ne_eq, Value.string.injEq, eq_comm]
  | _ => simp [Value.same]

/-- All names start with a letter. -/
def LetterNames (v : Variables) : Prop := ∀ entry ∈ v.entries, StartsWithLetter entry.1

instance (v : Variables) : Decidable (LetterNames v) :=
  inferInstanceAs (Decidable (∀ entry ∈ v.entries, StartsWithLetter entry.1))

theorem gives_within_variables {v : Variables} (hv : LetterNames v) :
    (valueWithin (n + 1) path (variablesNode v)).Gives v.value := by
  have hvalue : v.value = .mapping (v.entries.map fun entry => (.string entry.1, .string entry.2)) := by
    rw [Variables.value, Value.ofFields, List.map_map]
    rfl
  rw [hvalue]
  refine gives_within_mapping ?_
  refine gives_valueEntries (fun entry hentry path => ⟨gives_within_key (hv entry hentry),
    gives_within_text entry.2⟩) (freshKeys_nil _) ?_
  refine List.pairwise_map.2 (v.sorted.imp fun h => ?_)
  rw [same_string]
  exact beq_false_of_ne (Std.ne_of_lt h)

theorem gives_within_body {b : JobBody} (hb : LetterNames b.environment) :
    (valueWithin (n + 2) path (.mapping {} (bodyEntries b))).Gives b.value := by
  have hletter : ∀ name ∈ ["image", "script", "stage", "tags", "variables"], StartsWithLetter name := by
    decide
  refine gives_within_mapping ?_
  refine gives_valueEntries_cons (gives_within_key (hletter "image" (by simp)))
    (gives_within_text b.image) (by simp) ?_
  refine gives_valueEntries_cons (gives_within_key (hletter "script" (by simp)))
    (gives_within_texts b.script) (by simp [same_string]) ?_
  refine gives_valueEntries_cons (gives_within_key (hletter "stage" (by simp)))
    (gives_within_text b.stage) (by simp [same_string]) ?_
  refine gives_valueEntries_cons (gives_within_key (hletter "tags" (by simp)))
    (gives_within_texts b.tags) (by simp [same_string]) ?_
  refine gives_valueEntries_cons (gives_within_key (hletter "variables" (by simp)))
    (gives_within_variables hb) (by simp [same_string]) ?_
  exact gives_valueEntries_nil _

/-- The values of the entries in front of the template. -/
def headValues (p : Pipeline) : List (Value × Value) :=
  [(.string "stages", .ofTexts (p.stages.map (·.label))),
    (.string "variables", p.environment.value)]

/-- The value of the entry of a job. -/
def jobEntryValue (j : Job) : Value × Value := (.string j.name, j.body.value)

theorem gives_head {p : Pipeline} (hp : LetterNames p.environment) :
    (valueEntries (valueWithin (n + 1)) path [] (headEntries p)).Gives (headValues p) := by
  refine gives_valueEntries_cons (gives_within_key (by decide))
    (gives_within_texts (p.stages.map (·.label))) (by simp) ?_
  refine gives_valueEntries_cons (gives_within_key (by decide)) (gives_within_variables hp)
    (by simp [same_string]) ?_
  exact gives_valueEntries_nil _

/-- The names of the job and of its variables start with a letter. -/
def LetterKeys (j : Job) : Prop := StartsWithLetter j.name ∧ LetterNames j.body.environment

theorem gives_jobs {jobs : List Job} (hjobs : ∀ j ∈ jobs, LetterKeys j)
    (hnames : (jobs.map (·.name)).Nodup) :
    (valueEntries (valueWithin (n + 2)) path [] (jobs.map jobEntry)).Gives
      (jobs.map jobEntryValue) := by
  refine gives_valueEntries (fun j hj path => ⟨gives_within_key (hjobs j hj).1,
    gives_within_body (hjobs j hj).2⟩) (freshKeys_nil _) ?_
  refine List.pairwise_map.2 ((List.pairwise_map.1 hnames).imp fun h => ?_)
  rw [jobEntryValue, jobEntryValue, same_string]
  exact beq_false_of_ne h

end JobMatrix.Gitlab
