import JobMatrix.Proofs.Generation
import JobMatrix.Proofs.Job.Identity
import JobMatrix.Proofs.Pipeline.Events

/-!
# What a run reports

`Host.recording` keeps the events of a run in a log beside whatever the files are kept in, and
`Runs` follows a run on it: the result, the files, and the events that are added to the log.
Events tell of records (`Tells`) if they have the warnings and the jobs of these.  Assembly tells of
all records, and no other step of a run tells of any.

* `Pipeline.tells_assemble` and `Matrix.tells_verify` are about the two steps that look at records.
* `generate_tellsFrom` is about a run with verification: it tells of the records that
  `GenerateOptions.built` gives.
* `unknown_releases_reported_once` puts that together with the events of assembly.
-/

set_option autoImplicit false

namespace JobMatrix

/-! ## Events that tell of records -/

namespace LogEvent

/-- The event is about a HIP release whose `clang` is not known.  It is told by its message alone, so
that no such event is missed whatever its level and its fields are; `Record.warnings` has both. -/
def warnsOfRelease (e : LogEvent) : Bool :=
  e.message == "unknown hip version, ALPAKA_CI_CLANG_VER is not set"

/-- The event is about a job that has been built. -/
def isBuiltJob (e : LogEvent) : Bool := e.message == "built job"

end LogEvent

/-- The events have the warnings of the records, and as many jobs as there are records. -/
structure Tells (es : List LogEvent) (rs : List Record) : Prop where
  filter_eq : es.filter LogEvent.warnsOfRelease = rs.flatMap Record.warnings
  countP_eq : es.countP LogEvent.isBuiltJob = rs.length

namespace Tells

variable {es es' : List LogEvent} {rs rs' : List Record}

theorem nil_iff : Tells es [] ↔ ∀ e ∈ es, e.warnsOfRelease = false ∧ e.isBuiltJob = false := by
  simp only [← Bool.not_eq_true, forall_and]
  exact ⟨fun h => ⟨List.filter_eq_nil_iff.1 h.filter_eq, List.countP_eq_zero.1 h.countP_eq⟩,
    fun h => ⟨List.filter_eq_nil_iff.2 h.1, List.countP_eq_zero.2 h.2⟩⟩

theorem append (h : Tells es rs) (h' : Tells es' rs') : Tells (es ++ es') (rs ++ rs') where
  filter_eq := by rw [List.filter_append, h.filter_eq, h'.filter_eq, List.flatMap_append]
  countP_eq := by rw [List.countP_append, h.countP_eq, h'.countP_eq, List.length_append]

/-- Events that tell of nothing may follow. -/
theorem append_nil (h : Tells es rs) (h' : Tells es' []) : Tells (es ++ es') rs := by
  rw [← List.append_nil rs]
  exact h.append h'

end Tells

theorem Record.tells_jobEvents (r : Record) (j : Job) : Tells (r.jobEvents j) [r] := by
  have hwarnings : [r].flatMap Record.warnings = r.warnings := List.append_nil _
  constructor
  · rw [hwarnings, jobEvents, warnings]
    split <;> rfl
  · rw [jobEvents, warnings]
    split <;> rfl

namespace Pipeline

variable {version : ContainerVersion}

theorem tells_jobsEvents {wave : Nat} {rs : List Record} {jobs : List Job}
    (h : List.Forall₂ (Record.Builds version wave) rs jobs) : Tells (jobsEvents rs jobs) rs := by
  induction h with
  | nil => exact ⟨rfl, rfl⟩
  | @cons r j rs jobs _ _ ih => exact (r.tells_jobEvents j).append ih

theorem tells_stagesEvents {ws : List Wave} {stages : List Stage} :
    ∀ {wave : Nat}, List.Forall₂ (Holds version) (ws.zipIdx wave) stages →
      Tells (stagesEvents ws stages) ws.flatten := by
  induction ws generalizing stages with
  | nil => exact fun _ => ⟨rfl, rfl⟩
  | cons w ws ih =>
    intro wave h
    obtain ⟨s, stages, hs, hstages, rfl⟩ := List.forall₂_cons_left_iff.1 h
    have hassembled : Tells [s.assembledEvent] [] := ⟨rfl, rfl⟩
    exact ((tells_jobsEvents hs.2).append_nil hassembled).append (ih hstages)

/-- **Assembly that succeeds** tells of all records. -/
theorem tells_assemble {m : Matrix} {template : Template} {p : Pipeline}
    (h : (assemble m version template).outcome = .ok p) :
    Tells (assemble m version template).events m.flatten := by
  have hassembled : Tells [p.assembledEvent] [] := ⟨rfl, rfl⟩
  rw [assemble_events_of_ok h]
  exact (tells_stagesEvents (assemble_outcome_iff.1 h).1).append_nil hassembled

end Pipeline

/-- **Verification** tells of no record. -/
theorem Matrix.tells_verify (m : Matrix) : Tells m.verify.events [] := by
  -- a finding is told behind a word that starts neither of the two messages
  have hstart {text message : String} (h : message.toList.head? ≠ some 'v') :
      (s!"verification: {text}" == message) = false := by
    refine beq_eq_false_iff_ne.2 fun heq => h ?_
    rw [← heq, String.toList_append]
    rfl
  refine Tells.append (Tells.nil_iff.2 fun e he => ?_) ?_
  · obtain ⟨f, -, rfl⟩ := List.mem_map.1 he
    exact ⟨hstart (by decide), hstart (by decide)⟩
  · split <;> exact ⟨rfl, rfl⟩

/-! ## Following a run -/

/-- A computation on files, beside a log. -/
def besideLog {σ α : Type} (x : StateM σ α) : StateM (σ × List LogEvent) α := fun (s, log) =>
  ((x s).1, (x s).2, log)

theorem besideLog_bind {σ α β : Type} (x : StateM σ α) (f : α → StateM σ β) :
    besideLog (x >>= f) = besideLog x >>= fun a => besideLog (f a) := rfl

/-- A host that keeps its events in a log beside the files. -/
def Host.recording {σ : Type} (files : FileAccess (StateM σ)) :
    Host (StateM (σ × List LogEvent)) where
  files :=
    { readText := fun path => besideLog (files.readText path)
      writeText := fun path text => besideLog (files.writeText path text)
      rename := fun source path => besideLog (files.rename source path)
      remove := fun path => besideLog (files.remove path) }
  report e := fun (s, log) => ((), s, log ++ [e])

/-- From the state `s` of the files a computation gives `a`, leaves the state `s'` and adds the
events `es` to any log. -/
def Runs {σ α : Type} (x : StateM (σ × List LogEvent) α) (s : σ) (a : α) (s' : σ)
    (es : List LogEvent) : Prop :=
  ∀ log, x (s, log) = (a, s', log ++ es)

namespace Runs

variable {σ α β ε ε' : Type} {s s' s'' : σ} {a : α} {b : β} {es es' : List LogEvent}

theorem pure (a : α) (s : σ) : Runs (Pure.pure a) s a s [] := fun log => by
  rw [List.append_nil]
  rfl

theorem beside (x : StateM σ α) (s : σ) : Runs (besideLog x) s (x s).1 (x s).2 [] := fun log => by
  rw [List.append_nil]
  rfl

theorem report (files : FileAccess (StateM σ)) (e : LogEvent) (s : σ) :
    Runs ((Host.recording files).report e) s () s [e] := fun _ => rfl

theorem bind {x : StateM (σ × List LogEvent) α} {f : α → StateM (σ × List LogEvent) β}
    (hx : Runs x s a s' es) (hf : Runs (f a) s' b s'' es') :
    Runs (x >>= f) s b s'' (es ++ es') := by
  intro log
  rw [stateM_bind, hx, hf, List.append_assoc]

/-- What comes next may report nothing. -/
theorem bind_silent {x : StateM (σ × List LogEvent) α} {f : α → StateM (σ × List LogEvent) β}
    (hx : Runs x s a s' es) (hf : Runs (f a) s' b s'' []) : Runs (x >>= f) s b s'' es := by
  rw [← List.append_nil es]
  exact hx.bind hf

theorem forM_report (files : FileAccess (StateM σ)) (s : σ) :
    ∀ events : List LogEvent, Runs (events.forM (Host.recording files).report) s () s events
  | [] => pure () s
  | e :: es => (report files e s).bind (forM_report files s es)

theorem lift {x : StateM (σ × List LogEvent) α} (hx : Runs x s a s' es) :
    Runs (liftM x : ExceptT ε (StateM (σ × List LogEvent)) α).run s (.ok a) s' es := by
  intro log
  change (Except.ok (x (s, log)).1, (x (s, log)).2) = _
  rw [hx]

theorem adapt {x : StateM (σ × List LogEvent) (Except ε α)} {r : Except ε α}
    (f : ε → ε') (hx : Runs x s r s' es) :
    Runs (ExceptT.adapt f (ExceptT.mk x)).run s (r.mapError f) s' es := by
  intro log
  change ((x (s, log)).1.mapError f, (x (s, log)).2) = _
  rw [hx]

end Runs

/-- From the state `s` of the files a computation tells of the records `rs`, and what it gives has
the property `P`. -/
def TellsFrom {σ ε α : Type} (x : ExceptT ε (StateM (σ × List LogEvent)) α) (s : σ)
    (rs : List Record) (P : α → Prop) : Prop :=
  ∃ r s' es, Runs x.run s r s' es ∧ Tells es rs ∧ ∀ a, r = .ok a → P a

namespace TellsFrom

variable {σ α β ε : Type} {s s' : σ} {a : α} {es : List LogEvent} {rs rs' : List Record}
  {P : β → Prop} {x : ExceptT ε (StateM (σ × List LogEvent)) α}
  {f : α → ExceptT ε (StateM (σ × List LogEvent)) β}

theorem bind_ok (hx : Runs x.run s (.ok a) s' es) (htells : Tells es rs)
    (hf : TellsFrom (f a) s' rs' P) : TellsFrom (x >>= f) s (rs ++ rs') P := by
  obtain ⟨r, s'', es', hruns, htells', hr⟩ := hf
  exact ⟨r, s'', es ++ es', Runs.bind (f := ExceptT.bindCont f) hx hruns, htells.append htells', hr⟩

theorem bind_error {e : ε} (hx : Runs x.run s (.error e) s' es) (htells : Tells es rs) :
    TellsFrom (x >>= f) s rs P :=
  ⟨.error e, s', es, Runs.bind_silent (f := ExceptT.bindCont f) hx (.pure _ _), htells, nofun⟩

end TellsFrom

/-! ## The steps of a run -/

section Steps

variable {σ : Type} (files : FileAccess (StateM σ)) (s : σ)

theorem load_recording {α : Type} (parse : String → Except Yaml.ReadError α) (path : String) :
    (Host.recording files).files.load parse path = besideLog (files.load parse path) := by
  rw [FileAccess.load, FileAccess.load, besideLog_bind]
  refine bind_congr fun result => ?_
  cases result <;> rfl

theorem replaceFile_recording (path text : String) :
    Gitlab.replaceFile (Host.recording files).files path text
      = besideLog (Gitlab.replaceFile files path text) := by
  rw [Gitlab.replaceFile, Gitlab.replaceFile, besideLog_bind]
  refine bind_congr fun written => ?_
  cases written with
  | error e => rfl
  | ok =>
    dsimp only
    rw [besideLog_bind]
    refine bind_congr fun moved => ?_
    cases moved <;> rfl

/-- A step that reports what it gives, and nothing if it fails, tells of no record if its reports
tell of none. -/
theorem exists_runs_told {α ε ε' : Type} {s' : σ} {r : Except ε α}
    {x : StateM (σ × List LogEvent) (Except ε α)}
    {f : Except ε α → StateM (σ × List LogEvent) (Except ε' α)} {wrap : ε → ε'}
    {told : α → LogEvent} (hx : Runs x s r s' []) (htold : ∀ a, Tells [told a] [])
    (herror : ∀ e, f (.error e) = pure (.error (wrap e)))
    (hok : ∀ a, f (.ok a) = (Host.recording files).report (told a) >>= fun _ => pure (.ok a)) :
    ∃ es, Tells es [] ∧ Runs (x >>= f) s (r.mapError wrap) s' es := by
  cases r with
  | error e =>
    have hf : Runs (f (.error e)) s' (.error (wrap e)) s' [] := herror e ▸ Runs.pure _ _
    exact ⟨[], ⟨rfl, rfl⟩, hx.bind hf⟩
  | ok a =>
    have hf : Runs (f (.ok a)) s' (.ok a) s' [told a] :=
      hok a ▸ (Runs.report files _ _).bind_silent (.pure _ _)
    exact ⟨[told a], htold a, hx.bind hf⟩

/-- Loading a matrix tells of no record. -/
theorem exists_runs_matrixLoad (path : String) :
    ∃ es, Tells es [] ∧ Runs (Matrix.load (Host.recording files) path) s
      ((files.load Matrix.ofYaml path s).1.mapError (PipelineError.input path))
      (files.load Matrix.ofYaml path s).2 es := by
  have hload := Runs.beside (files.load Matrix.ofYaml path) s
  rw [← load_recording] at hload
  exact exists_runs_told files s hload (fun _ => ⟨rfl, rfl⟩) (fun _ => rfl) fun _ => rfl

/-- Loading a template tells of no record. -/
theorem exists_runs_templateLoad (path : String) :
    ∃ es, Tells es [] ∧ Runs (Template.load (Host.recording files) path) s
      ((files.load Template.ofYaml path s).1.mapError (PipelineError.template path))
      (files.load Template.ofYaml path s).2 es := by
  have hload := Runs.beside (files.load Template.ofYaml path) s
  rw [← load_recording] at hload
  exact exists_runs_told files s hload (fun _ => ⟨rfl, rfl⟩) (fun _ => rfl) fun _ => rfl

/-- Verification reports its findings and gives its verdict. -/
theorem runs_verify (m : Matrix) :
    Runs (verifyOrSkip (Host.recording files) m true) s (m.gate true) s m.verify.events := by
  rw [verifyOrSkip, Matrix.gate]
  refine (Runs.forM_report files s _).bind_silent ?_
  cases m.verify.value.passed <;> exact Runs.pure _ _

/-- Assembly on a host reports the events of assembly. -/
theorem runs_run {ε α : Type} (x : Logged ε α) :
    Runs ((Host.recording files).run x) s x.outcome s x.events :=
  (Runs.forM_report files s _).bind_silent (Runs.pure _ _)

/-- Saving tells of no record. -/
theorem exists_runs_save (p : Pipeline) (path : String) :
    ∃ r s' es, Tells es [] ∧ Runs (Gitlab.save (Host.recording files) p path) s r s' es := by
  rw [Gitlab.save]
  cases Gitlab.render p with
  | error e => exact ⟨_, _, [], ⟨rfl, rfl⟩, Runs.pure _ s⟩
  | ok text =>
    have hreplace := Runs.beside (Gitlab.replaceFile files path text) s
    rw [← replaceFile_recording] at hreplace
    exact ⟨_, _,
      exists_runs_told files s hreplace (fun _ => ⟨rfl, rfl⟩) (fun _ => rfl) fun _ => rfl⟩

end Steps

/-! ## A run with verification -/

/-- The records that a run with verification builds: all of its matrix, if it comes to assembly. -/
def GenerateOptions.built {σ : Type} (o : GenerateOptions) (files : FileAccess (StateM σ)) (s : σ) :
    List Record :=
  match files.load Matrix.ofYaml o.matrix s with
  | (.error _, _) => []
  | (.ok m, s') =>
    match m.verify.value.passed, (files.load Template.ofYaml o.jobBase s').1 with
    | true, .ok _ => m.flatten
    | _, _ => []

/-- **A run with verification** tells of the records that it builds, and of no others. -/
theorem generate_tellsFrom {σ : Type} (files : FileAccess (StateM σ)) (o : GenerateOptions)
    (s : σ) :
    TellsFrom (ExceptT.mk (generate (Host.recording files) { o with verify := true })) s
      (o.built files s) fun summary => summary.jobs = (o.built files s).length := by
  -- along the steps of a run: each one ends it, or tells of nothing and leads to the next
  rw [generate, GenerateOptions.built]
  refine .bind_ok (.lift (.report files _ s)) (⟨rfl, rfl⟩ : Tells [_] []) ?_
  obtain ⟨es₁, htells₁, hmatrix⟩ := exists_runs_matrixLoad files s o.matrix
  rcases hload : files.load Matrix.ofYaml o.matrix s with ⟨_ | m, s₁⟩ <;> rw [hload] at hmatrix
  · exact .bind_error (hmatrix.adapt _) htells₁
  refine .bind_ok (hmatrix.adapt _) htells₁ ?_
  have hverify := runs_verify files s₁ m
  rw [Matrix.gate] at hverify
  dsimp only
  cases hpassed : m.verify.value.passed with
  | false =>
    rw [hpassed] at hverify
    exact .bind_error hverify m.tells_verify
  | true =>
    rw [hpassed] at hverify
    refine .bind_ok hverify m.tells_verify ?_
    obtain ⟨es₂, htells₂, htemplate⟩ := exists_runs_templateLoad files s₁ o.jobBase
    rcases hload₂ : files.load Template.ofYaml o.jobBase s₁ with ⟨_ | template, s₂⟩ <;>
      rw [hload₂] at htemplate
    · exact .bind_error (htemplate.adapt _) htells₂
    refine .bind_ok (htemplate.adapt _) htells₂ ?_
    -- what passes verification is assembled, so this step tells of all records
    obtain ⟨p, hp, -⟩ := (Matrix.passed_iff_assembles m o.containerVersion template).1 hpassed
    have hassemble := runs_run files s₂ (Pipeline.assemble m o.containerVersion template)
    rw [hp] at hassemble
    rw [← List.append_nil m.flatten]
    refine .bind_ok (hassemble.adapt _) (Pipeline.tells_assemble hp) ?_
    obtain ⟨result, s₃, es₃, htells₃, hsave⟩ := exists_runs_save files s₂ p o.output
    cases result with
    | error e => exact .bind_error (hsave.adapt _) htells₃
    | ok =>
      refine .bind_ok (hsave.adapt _) htells₃ ⟨_, _, _, .pure _ _, ⟨rfl, rfl⟩, ?_⟩
      rintro _ ⟨⟩
      rw [List.append_nil]
      exact (Pipeline.jobCount_of_assemble hp).trans m.jobCount_eq

/-- **An unknown release is reported once for each job.**  Assembly reports the jobs of each wave,
each behind its warning if it has one, and then the stage of the wave; it ends with the pipeline, or
breaks off in front of the first record that no job can be built from.  Such a record reports
nothing, and verification warns of no release.  So a run with verification has the warnings of the
records that it builds, in their order, and one event for each job. -/
theorem unknown_releases_reported_once (m : Matrix) (version : ContainerVersion)
    (template : Template) :
    (∀ p, (Pipeline.assemble m version template).outcome = .ok p →
      List.Forall₂ (Pipeline.Holds version) m.zipIdx p.stages ∧
      (Pipeline.assemble m version template).events
        = Pipeline.stagesEvents m p.stages ++ [p.assembledEvent]) ∧
    (∀ e, (Pipeline.assemble m version template).outcome = .error e →
      ∃ ws stages rs jobs r source, Pipeline.Stops version m ws stages rs jobs r source ∧
        e = .job ws.length rs.length source ∧
        (Pipeline.assemble m version template).events
          = Pipeline.stagesEvents ws stages ++ Pipeline.jobsEvents rs jobs) ∧
    (∀ (r : Record) (stage : String) (e : JobError), (r.job version stage).outcome = .error e →
      (r.job version stage).events = []) ∧
    (∀ e ∈ m.verify.events, e.warnsOfRelease = false) ∧
    ∀ {σ : Type} (files : FileAccess (StateM σ)) (o : GenerateOptions) (s : σ)
      (log : List LogEvent), ∃ result s' es,
        generate (Host.recording files) { o with verify := true } (s, log)
          = (result, s', log ++ es) ∧
        es.filter LogEvent.warnsOfRelease = (o.built files s).flatMap Record.warnings ∧
        es.countP LogEvent.isBuiltJob = (o.built files s).length ∧
        ∀ summary, result = .ok summary → summary.jobs = (o.built files s).length := by
  refine ⟨fun p hp => ⟨(Pipeline.assemble_outcome_iff.1 hp).1, Pipeline.assemble_events_of_ok hp⟩,
    fun e he => Pipeline.assemble_events_of_error he, fun r stage e he => ?_,
    fun e he => (Tells.nil_iff.1 m.tells_verify e he).1, fun files o s log => ?_⟩
  · rw [Record.job_events, he]
  · obtain ⟨result, s', es, hruns, htells, hjobs⟩ := generate_tellsFrom files o s
    exact ⟨result, s', es, hruns log, htells.filter_eq, htells.countP_eq, hjobs⟩

/-- Of a release that is not known and one that is, there is one warning. -/
theorem unknown_releases_reported_once_hip :
    let unknown := Record.release ⟨"hipcc", "9.9"⟩ ⟨"gcc", "11"⟩ Parameter.off
    let known := Record.release ⟨"hipcc", "5.3"⟩ ⟨"gcc", "11"⟩ Parameter.off
    ∃ p j k, (Pipeline.assemble [[unknown, known]] .first .empty).outcome = .ok p ∧
      p.jobs = [j, k] ∧
      (Pipeline.assemble [[unknown, known]] .first .empty).events =
        [{ level := .warn, origin := .environment,
           message := "unknown hip version, ALPAKA_CI_CLANG_VER is not set",
           fields := [("hip_version", .text "9.9")] },
          j.builtEvent, k.builtEvent, Stage.assembledEvent ⟨"stage0", [j, k]⟩,
          p.assembledEvent] := by
  intro unknown known
  obtain ⟨j, hj⟩ : ∃ j, (unknown.job .first (stageLabel 0)).outcome = .ok j :=
    (Record.exists_job_iff _ _ _).2 ⟨rfl, _, rfl⟩
  obtain ⟨k, hk⟩ : ∃ k, (known.job .first (stageLabel 0)).outcome = .ok k :=
    (Record.exists_job_iff _ _ _).2 ⟨rfl, _, rfl⟩
  let p : Pipeline := ⟨[⟨stageLabel 0, [j, k]⟩], .global, .empty⟩
  have hheld : Pipeline.Holds .first ([unknown, known], 0) ⟨stageLabel 0, [j, k]⟩ :=
    ⟨rfl, .cons hj (.cons hk .nil)⟩
  have hp : (Pipeline.assemble [[unknown, known]] .first .empty).outcome = .ok p :=
    Pipeline.assemble_outcome_iff.2 ⟨.cons hheld .nil, rfl, rfl⟩
  have hunknown : unknown.warnings = [Record.unknownReleaseEvent "9.9"] := rfl
  have hknown : known.warnings = [] := rfl
  refine ⟨p, j, k, hp, rfl, ?_⟩
  rw [((unknown_releases_reported_once _ _ _).1 p hp).2]
  simp only [p, Pipeline.stagesEvents, Pipeline.jobsEvents, Record.jobEvents, hunknown, hknown,
    List.zip_cons_cons, List.zip_nil_left, List.flatMap_cons, List.flatMap_nil, List.append_nil,
    List.nil_append, List.cons_append]
  rfl

end JobMatrix
