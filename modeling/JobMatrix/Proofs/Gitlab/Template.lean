import JobMatrix.Proofs.Gitlab.Reading
import JobMatrix.Proofs.Gitlab.Splice
import JobMatrix.Proofs.Gitlab.Value
import JobMatrix.Proofs.Job.Identity
import JobMatrix.Proofs.Job.Variables
import JobMatrix.Proofs.Pipeline.Verification

/-!
# Loading a pipeline file

The template is put into a pipeline file as text.  If it adds entries to the root
(`Template.Adds`) under keys that are still free, the whole file is read as one mapping
(`read_file_iff`).
-/

set_option autoImplicit false

namespace JobMatrix

open Yaml Yaml.Node Yaml.Decode Yaml.Decoder Yaml.Scanner

/-- The entries that a template adds to the root of a file: none without content, and those of its
root, if that is a mapping that has some. -/
inductive Template.Adds : Template → List (Value × Value) → Prop
  | nothing : Adds empty []
  | entries {es : List (Value × Value)} (hes : es ≠ []) : Adds ⟨some (.mapping es)⟩ es

/-- The text of the content, standing alone, is read as the content.  This is about the values in it
only: how the text is laid out is proved of `Value.render` (`Outline.render_lines` and
`Outline.render_opening`). -/
def Template.RoundTrips (t : Template) : Prop :=
  ∀ v ∈ t.content, ∀ text, v.render = .ok text → Yaml.read Decoder.value text = .ok v

/-- None of the keys is one of the file of the pipeline. -/
structure Pipeline.Free (p : Pipeline) (es : List (Value × Value)) : Prop where
  ne_stages : ∀ e ∈ es, e.1 ≠ .string "stages"
  ne_variables : ∀ e ∈ es, e.1 ≠ .string "variables"
  ne_job : ∀ e ∈ es, ∀ j ∈ p.jobs, e.1 ≠ .string j.name

namespace Gitlab

variable {p : Pipeline} {es : List (Value × Value)}

/-- The keys of the file can be read back as they are. -/
structure Readable (p : Pipeline) : Prop extends ShortFile p, DistinctNames p where
  letters : LetterNames p.environment
  letterKeys : ∀ j ∈ p.jobs, LetterKeys j

/-! ## Free keys -/

/-- The keys are free exactly if no part of the file has a key of the parts in front of it. -/
theorem free_iff_freshKeys (hp : DistinctNames p) :
    p.Free es ↔ FreshKeys (headValues p) es ∧
      FreshKeys (headValues p ++ es) (p.jobs.map jobEntryValue) := by
  have hhead : FreshKeys (headValues p) es ↔
      (∀ e ∈ es, e.1 ≠ .string "stages") ∧ ∀ e ∈ es, e.1 ≠ .string "variables" := by
    simp only [FreshKeys, headValues, List.forall_mem_cons, List.not_mem_nil, false_implies,
      implies_true, and_true, string_same_eq_false_iff]
  have hjobs : FreshKeys (headValues p ++ es) (p.jobs.map jobEntryValue) ↔
      ∀ e ∈ es, ∀ j ∈ p.jobs, e.1 ≠ .string j.name := by
    have hfixed : ∀ e ∈ headValues p, ∀ j ∈ p.jobs, e.1 ≠ .string j.name := by
      simp only [headValues, List.forall_mem_cons, List.not_mem_nil, false_implies, implies_true,
        and_true, ne_eq, Value.string.injEq]
      exact ⟨fun j hj => (hp.ne_stages j hj).symm, fun j hj => (hp.ne_variables j hj).symm⟩
    simp only [FreshKeys, List.forall_mem_map, jobEntryValue, same_string_eq_false_iff]
    rw [List.forall_mem_append, and_iff_right hfixed]
  rw [hhead, hjobs]
  exact ⟨fun h => ⟨⟨h.ne_stages, h.ne_variables⟩, h.ne_job⟩, fun h => ⟨h.1.1, h.1.2, h.2⟩⟩

/-! ## The file -/

/-- The values of the entries of a file. -/
def fileValues (p : Pipeline) (es : List (Value × Value)) : List (Value × Value) :=
  headValues p ++ es ++ p.jobs.map jobEntryValue

/-- **A file is read as one mapping**: the stages, the variables, the entries of the template and the
jobs, in order.  It cannot be read if the template has a key of the file. -/
theorem read_file_iff (hp : Readable p) (htemplate : p.template.Adds es)
    (htrips : p.template.RoundTrips) {text : String} (htext : render p = .ok text) {v : Value} :
    Yaml.read Decoder.value text = .ok v ↔ p.Free es ∧ .mapping (fileValues p es) = v := by
  have hhead : (valueEntries (valueWithin 127) .root [] (headEntries p)).Gives (headValues p) :=
    gives_head hp.letters
  have hjobs : (valueEntries (valueWithin 127) .root [] (p.jobs.map jobEntry)).Gives
      (p.jobs.map jobEntryValue) := gives_jobs hp.letterKeys hp.nodup
  rw [free_iff_freshKeys hp.toDistinctNames, and_assoc]
  obtain ⟨inner, hinner, rfl⟩ := render_eq_ok_iff.1 htext
  generalize p.template = t at htemplate htrips hinner
  cases htemplate with
  | nothing =>
    cases hinner
    rw [String.append_empty]
    obtain ⟨ls, hls, hnode⟩ := ofTokens_render hp.toShortFile rfl
    rw [fileNode, ← List.append_nil (headEntries p)] at hnode
    exact read_between_iff hls hnode (numbersEntries_head p) (numbersEntries_jobs p) rfl hhead rfl hjobs
  | entries hne =>
    obtain ⟨hexcerpt, ls, q, entries, hls, hpeek, hnode, q', entries', ns, k, hnumber, hrun⟩ :=
      Value.blockMapping_of_read hinner (htrips _ rfl inner hinner) hne
    obtain ⟨entries, ls', hroot, hls', hnode'⟩ :=
      ofTokens_splice hp.toShortFile hexcerpt hls hpeek hnode rfl
    cases hroot
    obtain ⟨⟨entries', ns⟩, hentries, hnumber⟩ := Option.map_eq_some_iff.1 hnumber
    cases hnumber
    exact read_between_iff hls' hnode' (numbersEntries_head p) (numbersEntries_jobs p) hentries hhead
      hrun hjobs

/-! ## Assembled pipelines -/

/-- The name of a job starts in the same way for all records. -/
theorem linux_isPrefix_jobName {r : Record} {name : String} (h : r.jobName = .ok name) :
    "linux_".toList <+: name.toList := by
  obtain ⟨dependency, -, rfl⟩ := map_eq_ok_iff.1 h
  simp only [String.toList_append, List.append_assoc]
  exact List.prefix_append _ _

theorem jobName_spec {r : Record} {name : String} (h : r.jobName = .ok name) :
    StartsWithLetter name ∧ name ≠ "stages" ∧ name ≠ "variables" := by
  have hlinux := linux_isPrefix_jobName h
  refine ⟨?_, ?_, ?_⟩
  · obtain ⟨rest, hrest⟩ := hlinux
    rw [StartsWithLetter, ← hrest]
    rfl
  · rintro rfl
    exact absurd hlinux (by decide)
  · rintro rfl
    exact absurd hlinux (by decide)

/-- A name that starts with a letter and is not too long can be a key, and is read as a text. -/
def IsKeyName (name : String) : Prop := StartsWithLetter name ∧ name.length ≤ 170

instance (name : String) : Decidable (IsKeyName name) :=
  inferInstanceAs (Decidable (StartsWithLetter name ∧ name.length ≤ 170))

theorem IsKeyName.length_le {name : String} (h : IsKeyName name) : (key name).length ≤ 1024 := by
  have hname := h.2
  have hkey := length_key_le name
  omega

theorem isKeyName_of_global {entry : String × String} (h : entry ∈ Variables.global.entries) :
    IsKeyName entry.1 := by
  replace h := Bindings.mem_entries_ofList h
  revert entry
  decide +kernel

theorem isKeyName_of_mem_variableNames : ∀ name ∈ Record.variableNames, IsKeyName name := by
  decide +kernel

/-- The variables of an assembled pipeline have names that can be keys. -/
theorem isKeyName_of_assemble {m : Matrix} {version : ContainerVersion} {template : Template}
    (h : (Pipeline.assemble m version template).outcome = .ok p) :
    (∀ entry ∈ p.environment.entries, IsKeyName entry.1) ∧
      ∀ j ∈ p.jobs, ∀ entry ∈ j.body.environment.entries, IsKeyName entry.1 := by
  obtain ⟨-, henvironment, -⟩ := Pipeline.assemble_outcome_iff.1 h
  refine ⟨fun entry hentry => isKeyName_of_global (henvironment ▸ hentry), fun j hj entry hentry => ?_⟩
  obtain ⟨r, wave, hr⟩ := Pipeline.exists_builds_of_mem_jobs h hj
  obtain ⟨-, -, hbuilt, -⟩ := (Record.job_outcome_iff r version _ j).1 hr
  exact isKeyName_of_mem_variableNames _ (Record.environment_name hbuilt hentry)

/-- **The file of an assembled pipeline can be read**, if the names of its jobs are distinct and not
too long. -/
theorem readable_of_assemble {m : Matrix} {version : ContainerVersion} {template : Template}
    (h : (Pipeline.assemble m version template).outcome = .ok p)
    (hnodup : (p.jobs.map (·.name)).Nodup)
    (hshort : ∀ j ∈ p.jobs, (key j.name).length ≤ 1024) : Readable p := by
  obtain ⟨henvironment, hvariables⟩ := isKeyName_of_assemble h
  have hjobs : ∀ j ∈ p.jobs, StartsWithLetter j.name ∧ j.name ≠ "stages" ∧ j.name ≠ "variables" := by
    intro j hj
    obtain ⟨r, wave, hr⟩ := Pipeline.exists_builds_of_mem_jobs h hj
    obtain ⟨hname, -⟩ := (Record.job_outcome_iff r version _ j).1 hr
    exact jobName_spec hname
  exact
    { environment := fun entry hentry => (henvironment entry hentry).length_le
      jobs := fun st hst j hj => by
        have hj : j ∈ p.jobs := List.mem_flatMap_of_mem hst hj
        exact ⟨hshort j hj, fun entry hentry => (hvariables j hj entry hentry).length_le⟩
      nodup := hnodup
      ne_stages := fun j hj => (hjobs j hj).2.1
      ne_variables := fun j hj => (hjobs j hj).2.2
      letters := fun entry hentry => (henvironment entry hentry).1
      letterKeys := fun j hj =>
        ⟨(hjobs j hj).1, fun entry hentry => (hvariables j hj entry hentry).1⟩ }

/-- **A verified matrix gives a file that can be loaded.**  If the template adds entries under keys
that are free, and no printed name is too long for a key, the file is one document: a mapping with
distinct keys, which are the stages, the variables, the entries of the template and the jobs.

`RoundTrips` says that the template is read back from its text when this is all there is.  That the
text can stand in the middle of the file is not assumed: its block layout starts at column 0, no line
of it starts with a document mark, and its last line is complete, whatever the template
(`Outline.render_lines`, `Outline.render_opening`). -/
theorem verified_file_loads {m : Matrix} {version : ContainerVersion} {template : Template}
    {text : String} (hverify : m.verify.value.passed = true) (htemplate : template.Adds es)
    (htrips : template.RoundTrips)
    (hassemble : (Pipeline.assemble m version template).outcome = .ok p)
    (hes : p.Free es) (hshort : ∀ j ∈ p.jobs, (key j.name).length ≤ 1024)
    (htext : render p = .ok text) :
    Yaml.read Decoder.value text = .ok (.mapping (fileValues p es)) ∧
      DistinctKeys (fileValues p es) := by
  obtain ⟨p', hp', hnodup, -⟩ := (Matrix.passed_iff_assembles m version template).1 hverify
  rw [hassemble] at hp'
  cases hp'
  obtain ⟨-, -, hp⟩ := Pipeline.assemble_outcome_iff.1 hassemble
  have hread := (read_file_iff (readable_of_assemble hassemble hnodup hshort) (by rwa [hp])
    (by rwa [hp]) htext).2 ⟨hes, rfl⟩
  exact ⟨hread, distinctKeys_of_read hread⟩

/-- A record by itself is a matrix that is verified, and its pipeline has one job. -/
theorem exists_assemble_singleton {r : Record} {name : String} (hversions : r.checkVersions = .ok ())
    (hname : r.jobName = .ok name) (hbackends : ¬r.Conflicts) (version : ContainerVersion)
    (template : Template) :
    (Matrix.verify [[r]]).value.passed = true ∧
      ∃ p j, (Pipeline.assemble [[r]] version template).outcome = .ok p ∧ p.jobs = [j] ∧
        j.name = name := by
  have hbuilt : ∀ q ∈ Matrix.positioned [[r]], q.2.checkVersions = .ok () ∧
      ∃ name, q.2.jobName = .ok name := by
    intro q hq
    cases List.mem_singleton.1 hq
    exact ⟨hversions, _, hname⟩
  obtain ⟨p, hp⟩ := (Matrix.exists_assemble_iff [[r]] version template).2 hbuilt
  obtain ⟨j, hjobs, hj⟩ : ∃ j, p.jobs = [j] ∧ j.name = name := by
    have hrecords : List.Forall₂ (fun (r : Record) (j : Job) => r.jobName = .ok j.name) [r] p.jobs :=
      Pipeline.forall₂_jobs hp
    obtain ⟨j, jobs, hj, hjobs, hcons⟩ := List.forall₂_cons_left_iff.1 hrecords
    cases hjobs
    exact ⟨j, hcons, Except.ok.inj (hj.symm.trans hname)⟩
  refine ⟨(Matrix.passed_iff_assembles [[r]] version template).2 ⟨p, hp, ?_, ?_⟩,
    p, j, hp, hjobs, hj⟩
  · rw [hjobs]
    exact List.nodup_singleton _
  · intro r' hr'
    cases List.mem_singleton.1 hr'
    exact hbackends

/-- A release build without CUDA has no two accelerators. -/
theorem not_conflicts_release (device host : Parameter) :
    ¬(Record.release device host Parameter.off).Conflicts := by
  rintro ⟨⟨p, hp, hversion⟩, -⟩
  cases hp
  exact hversion rfl

/-- An entry that says which image jobs have that do not name one. -/
def defaultImage : List (Value × Value) := [(.string "image", .string "alpine")]

theorem render_defaultImage : Value.render (.mapping defaultImage) = .ok "image: alpine\n" := by
  have hrender : Outline.render (.mapping none
      [(.scalar none .plain "image", .scalar none .plain "alpine")]) = "image: alpine\n" := by
    decide +kernel
  exact congrArg Except.ok hrender

/-- A template that is read back from its text by itself. -/
theorem roundTrips_of_read {v : Value} {text : String} (hrender : v.render = .ok text)
    (hread : Yaml.read Decoder.value text = .ok v) : Template.RoundTrips ⟨some v⟩ := by
  rintro _ ⟨⟩ text' htext'
  cases hrender.symm.trans htext'
  exact hread

/-- What is read from a text can be compared with a value that is the same as itself only. -/
theorem read_eq_of_same {v : Value} {text : String} (hv : ∀ w : Value, w.same v = true → w = v)
    (h : (Yaml.read Decoder.value text).toOption.any (·.same v) = true) :
    Yaml.read Decoder.value text = .ok v := by
  cases hread : Yaml.read Decoder.value text with
  | error e =>
    rw [hread] at h
    cases h
  | ok w =>
    rw [hread] at h
    rw [hv w h]

theorem eq_of_same_string {w : Value} {s : String} (h : w.same (.string s) = true) :
    w = .string s := by
  by_contra hne
  rw [same_string_eq_false_iff.2 hne] at h
  cases h

theorem eq_of_same_textEntry {name s : String} (w : Value)
    (h : w.same (.mapping [(.string name, .string s)]) = true) :
    w = .mapping [(.string name, .string s)] := by
  cases w with
  | mapping es =>
    rw [Value.same, Bool.and_eq_true, beq_iff_eq] at h
    obtain ⟨⟨k, v⟩, rfl⟩ := List.length_eq_one_iff.1 h.1
    have hentry := h.2
    simp only [Value.sameEntries, List.any_cons, List.any_nil, Bool.or_false, Bool.and_true,
      Bool.and_eq_true] at hentry
    rw [eq_of_same_string hentry.1, eq_of_same_string hentry.2]
  | _ => simp [Value.same] at h

theorem roundTrips_defaultImage : Template.RoundTrips ⟨some (.mapping defaultImage)⟩ :=
  roundTrips_of_read render_defaultImage (read_eq_of_same eq_of_same_textEntry (by decide +kernel))

theorem verified_file_loads_release :
    let m : Matrix := [[Record.release ⟨"gcc", "11"⟩ ⟨"gcc", "11"⟩ Parameter.off]]
    let template : Template := ⟨some (.mapping defaultImage)⟩
    m.verify.value.passed = true ∧ ∃ p text,
      (Pipeline.assemble m .first template).outcome = .ok p ∧ render p = .ok text ∧
        Yaml.read Decoder.value text = .ok (.mapping (fileValues p defaultImage)) ∧
          DistinctKeys (fileValues p defaultImage) := by
  intro m template
  have hname : (Record.release ⟨"gcc", "11"⟩ ⟨"gcc", "11"⟩ Parameter.off).jobName
      = .ok "linux_gcc11_cmake3.22_boost1.79_ubuntu20.04_Release" := by decide
  obtain ⟨hverify, p, j, hp, hjobs, hj⟩ :=
    exists_assemble_singleton rfl hname (not_conflicts_release _ _) .first template
  have hrender : p.template.render = .ok "image: alpine\n" := by
    rw [(Pipeline.assemble_outcome_iff.1 hp).2.2]
    exact render_defaultImage
  refine ⟨hverify, p, _, hp, render_eq hrender, ?_⟩
  refine verified_file_loads hverify (.entries (List.cons_ne_nil _ _)) roundTrips_defaultImage hp
    ⟨?_, ?_, ?_⟩ ?_ (render_eq hrender)
  · intro e he
    cases List.mem_singleton.1 he
    simp
  · intro e he
    cases List.mem_singleton.1 he
    simp
  · intro e he k hk
    cases List.mem_singleton.1 he
    rw [hjobs] at hk
    cases List.mem_singleton.1 hk
    rw [hj]
    simp
  · intro k hk
    rw [hjobs] at hk
    cases List.mem_singleton.1 hk
    rw [hj]
    decide

end Gitlab

end JobMatrix
