import JobMatrix.Generation
import JobMatrix.Proofs.Files.Disk
import JobMatrix.Proofs.Pipeline.Verification

/-!
# What a run leaves behind

`Disk.generate_eq` follows a run on a `Disk` step by step.  All steps before the last only read:
`GenerateOptions.Ready` lists what has to go well in them for a text to be written.

* `generate_of_ready` and `generate_of_not_ready` say what a run does in either case.
* `generate_all_or_nothing` is the result: a run that succeeds has written just that text, a run
  that fails has changed nothing, and verification only decides whether there is a run.
-/

set_option autoImplicit false

namespace JobMatrix

/-! ## Reading -/

namespace Disk

variable (faults : Faults) (cwd : Location)

/-- What reading a file gives, if the next operation does that. -/
def read (path : String) (d : Disk) : Except FileError String :=
  match faults d.clock with
  | some fault => .error fault.error
  | none => d.tree.readText cwd path

/-- The disk after an operation that changes no file. -/
def tick (d : Disk) : Disk := ⟨d.tree, d.clock + 1⟩

/-- What loading a file gives, if the next operation reads it. -/
def load {α : Type} (parse : String → Except Yaml.ReadError α) (path : String) (d : Disk) :
    Except FileProblem α :=
  (read faults cwd path d).mapError .access >>= fun text => (parse text).mapError .content

theorem readText_eq (path : String) (d : Disk) :
    (access faults cwd).readText path d = (read faults cwd path d, d.tick) := by
  change perform faults (fun _ t => t) ((FileTree.access cwd).readText path) d = _
  rw [perform, read]
  cases faults d.clock <;> rfl

theorem load_eq {α : Type} (parse : String → Except Yaml.ReadError α) (path : String) (d : Disk) :
    (access faults cwd).load parse path d = (load faults cwd parse path d, d.tick) := by
  rw [FileAccess.load, stateM_bind, readText_eq, load]
  cases read faults cwd path d <;> rfl

theorem load_eq_ok_iff {faults : Faults} {cwd : Location} {α : Type} {parse : String → Except Yaml.ReadError α}
    {path : String} {d : Disk} {a : α} :
    load faults cwd parse path d = .ok a ↔
      ∃ source, (access faults cwd).readText path d = (.ok source, d.tick) ∧
        parse source = .ok a := by
  simp only [load, bind_eq_ok_iff, mapError_eq_ok_iff, readText_eq]
  constructor
  · rintro ⟨source, hread, hparse⟩
    exact ⟨source, by rw [hread], hparse⟩
  · rintro ⟨source, hread, hparse⟩
    exact ⟨source, (Prod.mk.inj hread).1, hparse⟩

theorem matrixLoad_eq (path : String) (d : Disk) :
    Matrix.load (host faults cwd) path d
      = ((load faults cwd Matrix.ofYaml path d).mapError (PipelineError.input path), d.tick) := by
  have hfiles : (host faults cwd).files = access faults cwd := rfl
  rw [Matrix.load, stateM_bind, hfiles, load_eq]
  cases load faults cwd Matrix.ofYaml path d <;> rfl

theorem templateLoad_eq (path : String) (d : Disk) :
    Template.load (host faults cwd) path d
      = ((load faults cwd Template.ofYaml path d).mapError (PipelineError.template path),
          d.tick) := by
  have hfiles : (host faults cwd).files = access faults cwd := rfl
  rw [Template.load, stateM_bind, hfiles, load_eq]
  cases load faults cwd Template.ofYaml path d <;> rfl

/-! ## Reporting -/

theorem forM_report (events : List LogEvent) (d : Disk) :
    events.forM (host faults cwd).report d = ((), d) := by
  induction events with
  | nil => rfl
  | cons e es ih => exact ih

theorem run_eq {ε α : Type} (x : Logged ε α) (d : Disk) :
    (host faults cwd).run x d = (x.outcome, d) := by
  rw [Host.run, stateM_bind, forM_report]
  rfl

end Disk

/-- The verdict on a matrix, if it is asked for. -/
def Matrix.gate (m : Matrix) (verify : Bool) : Except GenerateError Unit :=
  if verify = true ∧ m.verify.value.passed = false then
    .error (.verificationFailed m.verify.value.findings.length)
  else .ok ()

theorem Matrix.gate_eq_ok_iff {m : Matrix} {verify : Bool} :
    m.gate verify = .ok () ↔ (verify = true → m.verify.value.passed = true) := by
  rw [gate]
  cases verify <;> cases m.verify.value.passed <;> simp

theorem Disk.verifyOrSkip_eq (faults : Faults) (cwd : Location) (m : Matrix) (verify : Bool)
    (d : Disk) : verifyOrSkip (host faults cwd) m verify d = (m.gate verify, d) := by
  rw [verifyOrSkip, Matrix.gate]
  cases verify with
  | false => rfl
  | true =>
    change ((m.verify.events.forM (host faults cwd).report >>= _) : StateM Disk _) d = _
    rw [stateM_bind, forM_report]
    cases m.verify.value.passed <;> rfl

/-! ## The steps of a run -/

namespace Disk

variable {faults : Faults} {cwd : Location} {o : GenerateOptions} {d d' : Disk}

theorem exceptT_bind {ε α β : Type} (x : ExceptT ε (StateM Disk) α)
    (f : α → ExceptT ε (StateM Disk) β) (d : Disk) :
    (x >>= f).run d =
      match x.run d with
      | (.ok a, d') => (f a).run d'
      | (.error e, d') => (.error e, d') := by
  change (match (x d).1 with
    | .ok a => f a
    | .error e => (pure (.error e) : StateM Disk (Except ε β))) (x d).2 = _
  cases h : x d with
  | mk r d' =>
    have hrun : x.run d = (r, d') := h
    rw [hrun]
    cases r <;> rfl

theorem adapt_run {ε ε' α : Type} (f : ε → ε') (x : StateM Disk (Except ε α)) (d : Disk) :
    (ExceptT.adapt f (ExceptT.mk x)).run d = ((x d).1.mapError f, (x d).2) := rfl

/-- A run, step by step. -/
theorem generate_eq :
    generate (host faults cwd) o d =
      match load faults cwd Matrix.ofYaml o.matrix d with
      | .error e => (.error (.pipeline (.input o.matrix e)), d.tick)
      | .ok m =>
        match m.gate o.verify with
        | .error e => (.error e, d.tick)
        | .ok () =>
          match load faults cwd Template.ofYaml o.jobBase d.tick with
          | .error e => (.error (.pipeline (.template o.jobBase e)), d.tick.tick)
          | .ok template =>
            match (Pipeline.assemble m o.containerVersion template).outcome with
            | .error e => (.error (.assemblyFailed e), d.tick.tick)
            | .ok p =>
              match Gitlab.save (host faults cwd) p o.output d.tick.tick with
              | (.error e, d') => (.error (.pipeline e), d')
              | (.ok (), d') => (.ok ⟨p.stages.length, p.jobCount⟩, d') := by
  have hreport (e : LogEvent) : (monadLift ((host faults cwd).report e) :
      ExceptT GenerateError (StateM Disk) Unit).run d = (.ok (), d) := rfl
  rw [generate, exceptT_bind, hreport]
  dsimp only
  rw [exceptT_bind, adapt_run, matrixLoad_eq]
  cases load faults cwd Matrix.ofYaml o.matrix d with
  | error e => rfl
  | ok m =>
    have hgate : (ExceptT.mk (verifyOrSkip (host faults cwd) m o.verify)).run d.tick
        = (m.gate o.verify, d.tick) := verifyOrSkip_eq ..
    dsimp only [Except.mapError]
    rw [exceptT_bind, hgate]
    cases m.gate o.verify with
    | error e => rfl
    | ok =>
      dsimp only
      rw [exceptT_bind, adapt_run, templateLoad_eq]
      cases load faults cwd Template.ofYaml o.jobBase d.tick with
      | error e => rfl
      | ok template =>
        dsimp only [Except.mapError]
        rw [exceptT_bind, adapt_run, run_eq]
        cases (Pipeline.assemble m o.containerVersion template).outcome with
        | error e => rfl
        | ok p =>
          dsimp only [Except.mapError]
          rw [exceptT_bind, adapt_run]
          rcases Gitlab.save (host faults cwd) p o.output d.tick.tick with ⟨_ | _, d'⟩ <;> rfl

end Disk

/-! ## The whole run -/

open JobMatrix.Path (temporarySibling)
open Disk (access host)

/-- What has to go well before anything is written: both files are read, the matrix is verified
if that is asked for, every record has its job, and the pipeline of the jobs has a text. -/
structure GenerateOptions.Ready (o : GenerateOptions) (faults : Faults) (cwd : Location) (d : Disk)
    (m : Matrix) (template : Template) (p : Pipeline) (text : String) : Prop where
  matrixRead : ∃ source, (access faults cwd).readText o.matrix d = (.ok source, d.tick) ∧
    Matrix.ofYaml source = .ok m
  verified : o.verify = true → m.verify.value.passed = true
  templateRead : ∃ source,
    (access faults cwd).readText o.jobBase d.tick = (.ok source, d.tick.tick) ∧
      Template.ofYaml source = .ok template
  builds : ∀ q ∈ m.positioned, ∃ j, q.2.Builds o.containerVersion q.1.wave j
  assembled : (Pipeline.assemble m o.containerVersion template).outcome = .ok p
  rendered : Gitlab.render p = .ok text

/-- The two operations that put a text in its place, after the inputs have been read. -/
def GenerateOptions.Writes (o : GenerateOptions) (faults : Faults) (cwd : Location) (d : Disk)
    (text : String) (d' : Disk) : Prop :=
  ∃ d₁, (access faults cwd).writeText (temporarySibling o.output) text d.tick.tick = (.ok (), d₁) ∧
    (access faults cwd).rename (temporarySibling o.output) o.output d₁ = (.ok (), d')

/-- The summary of a run on a matrix. -/
def Matrix.summary (m : Matrix) : GenerateSummary := ⟨m.length, m.flatten.length⟩

section Run

variable {faults : Faults} {cwd : Location} {o : GenerateOptions} {d d' : Disk}

/-- A run that is ready replaces its output. -/
theorem generate_of_ready {m : Matrix} {template : Template} {p : Pipeline} {text : String}
    (h : o.Ready faults cwd d m template p text) :
    generate (host faults cwd) o d =
      match Gitlab.replaceFile (access faults cwd) o.output text d.tick.tick with
      | (.error problem, d') => (.error (.pipeline (.output o.output problem)), d')
      | (.ok (), d') => (.ok m.summary, d') := by
  rw [Disk.generate_eq, Disk.load_eq_ok_iff.2 h.matrixRead]
  dsimp only
  rw [Matrix.gate_eq_ok_iff.2 h.verified]
  dsimp only
  rw [Disk.load_eq_ok_iff.2 h.templateRead]
  dsimp only
  rw [h.assembled]
  dsimp only
  rw [Disk.save_of_render h.rendered, Matrix.summary,
    Pipeline.length_stages_of_assemble h.assembled, Pipeline.jobCount_of_assemble h.assembled,
    Matrix.jobCount_eq]
  rcases Gitlab.replaceFile (access faults cwd) o.output text d.tick.tick with ⟨_ | _, d'⟩ <;> rfl

/-- A run that is not ready fails with the files as they were. -/
theorem generate_of_not_ready
    (h : ¬∃ m template p text, o.Ready faults cwd d m template p text) :
    ∃ e d', generate (host faults cwd) o d = (.error e, d') ∧ d'.tree = d.tree := by
  rw [Disk.generate_eq]
  split
  · exact ⟨_, _, rfl, rfl⟩
  rename_i m hmatrix
  split
  · exact ⟨_, _, rfl, rfl⟩
  rename_i hgate
  split
  · exact ⟨_, _, rfl, rfl⟩
  rename_i template htemplate
  split
  · exact ⟨_, _, rfl, rfl⟩
  rename_i p hassemble
  cases hrender : Gitlab.render p with
  | error e =>
    rw [Disk.save_of_render_error hrender]
    exact ⟨_, _, rfl, rfl⟩
  | ok text =>
    have hready : o.Ready faults cwd d m template p text :=
      { matrixRead := Disk.load_eq_ok_iff.1 hmatrix
        verified := Matrix.gate_eq_ok_iff.1 hgate
        templateRead := Disk.load_eq_ok_iff.1 htemplate
        builds := fun q hq => Pipeline.builds_of_assemble hassemble hq
        assembled := hassemble
        rendered := hrender }
    exact absurd ⟨m, template, p, text, hready⟩ h

/-- A run that is ready succeeds exactly if its output is written. -/
theorem generate_eq_ok_iff_of_ready {m : Matrix} {template : Template} {p : Pipeline}
    {text : String} (h : o.Ready faults cwd d m template p text) {s : GenerateSummary} :
    generate (host faults cwd) o d = (.ok s, d') ↔
      o.Writes faults cwd d text d' ∧ s = m.summary := by
  rw [generate_of_ready h, GenerateOptions.Writes, ← Disk.replaceFile_eq_ok_iff]
  rcases Gitlab.replaceFile (access faults cwd) o.output text d.tick.tick with ⟨_ | _, d₁⟩
  · exact ⟨fun h => (nomatch h), fun h => (nomatch h.1)⟩
  · constructor
    · rintro ⟨⟩
      exact ⟨rfl, rfl⟩
    · rintro ⟨⟨⟩, rfl⟩
      rfl

/-- **A run that succeeds** has been through all its steps. -/
theorem generate_eq_ok_iff {s : GenerateSummary} :
    generate (host faults cwd) o d = (.ok s, d') ↔
      ∃ m template p text, o.Ready faults cwd d m template p text ∧
        o.Writes faults cwd d text d' ∧ s = m.summary := by
  constructor
  · intro h
    by_cases hready : ∃ m template p text, o.Ready faults cwd d m template p text
    · obtain ⟨m, template, p, text, hready⟩ := hready
      exact ⟨m, template, p, text, hready, (generate_eq_ok_iff_of_ready hready).1 h⟩
    · obtain ⟨e, d₁, he, -⟩ := generate_of_not_ready hready
      rw [he] at h
      cases h
  · rintro ⟨m, template, p, text, hready, hwrites⟩
    exact (generate_eq_ok_iff_of_ready hready).2 hwrites

/-- **A run that fails** was not ready, and has changed nothing; or it could not replace its output,
and then only the sibling of that is touched. -/
theorem touches_of_generate_error {e : GenerateError}
    (h : generate (host faults cwd) o d = (.error e, d')) :
    FileTree.Touches cwd (temporarySibling o.output) d.tree d'.tree ∧
      ((¬∃ m template p text, o.Ready faults cwd d m template p text) → d'.tree = d.tree) := by
  by_cases hready : ∃ m template p text, o.Ready faults cwd d m template p text
  · refine ⟨?_, fun hnot => absurd hready hnot⟩
    obtain ⟨m, template, p, text, hready⟩ := hready
    rw [generate_of_ready hready] at h
    split at h
    · rename_i hreplace
      cases h
      have htouches : FileTree.Touches cwd (temporarySibling o.output) d.tick.tick.tree d'.tree :=
        Disk.touches_of_replaceFile hreplace
      exact htouches
    · cases h
  · obtain ⟨e', d₁, he, htree⟩ := generate_of_not_ready hready
    rw [he] at h
    cases h
    exact ⟨.inl htree, fun _ => htree⟩

/-- **A run is all or nothing**, and verification only decides which.

* It succeeds exactly if it was ready to write and both operations that write did succeed.
* After a success the output holds the text of the pipeline, and the summary counts waves and
  records of the matrix.
* After a failure only the sibling of the output may differ, and not even that if the run was not
  ready to write.
* A run that succeeds with verification does the same without. -/
theorem generate_all_or_nothing (faults : Faults) (cwd : Location) (o : GenerateOptions)
    (d : Disk) :
    ((∃ s, (generate (host faults cwd) o d).1 = .ok s) ↔
        ∃ m template p text, o.Ready faults cwd d m template p text ∧
          ∃ d', o.Writes faults cwd d text d') ∧
      (∀ s, (generate (host faults cwd) o d).1 = .ok s →
        ∃ m template p text, o.Ready faults cwd d m template p text ∧
          (generate (host faults cwd) o d).2.tree.readText cwd o.output = .ok text ∧
          s = ⟨m.length, m.flatten.length⟩) ∧
      (∀ e, (generate (host faults cwd) o d).1 = .error e →
        (∀ l, d.tree.resolve cwd (temporarySibling o.output) ≠ .ok l →
          (generate (host faults cwd) o d).2.tree.get? l = d.tree.get? l) ∧
        (generate (host faults cwd) o d).2.tree.entryAt cwd o.output
          = d.tree.entryAt cwd o.output ∧
        ((¬∃ m template p text, o.Ready faults cwd d m template p text) →
          (generate (host faults cwd) o d).2.tree = d.tree)) ∧
      (∀ s, (generate (host faults cwd) { o with verify := true } d).1 = .ok s →
        generate (host faults cwd) { o with verify := false } d
          = generate (host faults cwd) { o with verify := true } d) := by
  refine ⟨⟨?_, ?_⟩, fun s hs => ?_, fun e he => ?_, fun s hs => ?_⟩
  · rintro ⟨s, hs⟩
    obtain ⟨m, template, p, text, hready, hwrites, -⟩ := generate_eq_ok_iff.1 (Prod.ext hs rfl)
    exact ⟨m, template, p, text, hready, _, hwrites⟩
  · rintro ⟨m, template, p, text, hready, d', hwrites⟩
    have h := generate_eq_ok_iff.2 ⟨m, template, p, text, hready, hwrites, rfl⟩
    exact ⟨_, by rw [h]⟩
  · obtain ⟨m, template, p, text, hready, hwrites, rfl⟩ :=
      generate_eq_ok_iff.1 (Prod.ext hs rfl)
    exact ⟨m, template, p, text, hready,
      Disk.readText_of_replaceFile (Disk.replaceFile_eq_ok_iff.2 hwrites), rfl⟩
  · obtain ⟨htouches, hsame⟩ := touches_of_generate_error (Prod.ext he rfl)
    exact ⟨fun l hl => htouches.get?_eq hl, FileTree.entryAt_of_touches htouches, hsame⟩
  · have hrun : generate (host faults cwd) { o with verify := true } d
        = (.ok s, (generate (host faults cwd) { o with verify := true } d).2) := Prod.ext hs rfl
    obtain ⟨m, template, p, text, hready, hwrites, rfl⟩ := generate_eq_ok_iff.1 hrun
    have hunverified : GenerateOptions.Ready { o with verify := false } faults cwd d m template p
        text :=
      { hready with verified := fun h => (nomatch h) }
    rw [hrun]
    exact generate_eq_ok_iff.2 ⟨m, template, p, text, hunverified, hwrites, rfl⟩

end Run

end JobMatrix
