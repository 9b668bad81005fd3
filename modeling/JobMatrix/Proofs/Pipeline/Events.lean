import JobMatrix.Proofs.Job.Building
import JobMatrix.Proofs.Pipeline.Assembly

/-!
# What assembly reports

A record reports nothing until its job is built, and then all at once: a warning if its HIP release
is not known, and the job (`Record.job_events`).  From there the events of assembly are put together
along its two loops.

* `Pipeline.jobsFrom_events` and `Pipeline.stagesFrom_events` are about the part of a list in front
  of a record that may fail.
* `Pipeline.assemble_events_of_ok` gives the events of a success, and
  `Pipeline.assemble_events_of_error` those of a failure.
-/

set_option autoImplicit false

namespace JobMatrix

/-! ## Events -/

/-- The event of a HIP release whose `clang` is not known. -/
def Record.unknownReleaseEvent (hip : String) : LogEvent :=
  { level := .warn, origin := .environment,
    message := "unknown hip version, ALPAKA_CI_CLANG_VER is not set",
    fields := [("hip_version", .text hip)] }

/-- The event of a job that has been built. -/
def Job.builtEvent (j : Job) : LogEvent :=
  { level := .debug, origin := .descriptor, message := "built job",
    fields := [("job", .shown j.name), ("image", .shown j.body.image),
      ("stage", .shown j.body.stage)] }

/-- The event of a stage that has all its jobs. -/
def Stage.assembledEvent (s : Stage) : LogEvent :=
  { level := .debug, origin := .document, message := "assembled stage",
    fields := [("stage", .shown s.label), ("jobs", .ofNat s.jobs.length)] }

/-- The event of a pipeline that has all its stages. -/
def Pipeline.assembledEvent (p : Pipeline) : LogEvent :=
  { level := .info, origin := .document, message := "assembled pipeline",
    fields := [("stages", .ofNat p.stages.length),
      ("jobs", .ofNat (p.stages.flatMap (·.jobs)).length)] }

/-! ## One record -/

namespace Record

/-- The record is for a HIP release whose `clang` is not known. -/
def UnknownRelease (r : Record) : Prop :=
  r.deviceCompiler.name = "hipcc" ∧ hipClangVersion? r.deviceCompiler.version = none

instance (r : Record) : Decidable r.UnknownRelease := inferInstanceAs (Decidable (_ ∧ _))

/-- The warning that comes with a record, if there is one. -/
def warnings (r : Record) : List LogEvent :=
  if r.UnknownRelease then [unknownReleaseEvent r.deviceCompiler.version] else []

/-- What is reported of a record and its job. -/
def jobEvents (r : Record) (j : Job) : List LogEvent := r.warnings ++ [j.builtEvent]

theorem environmentEvents_eq (r : Record) : r.environmentEvents = r.warnings := by
  have hrelease : (r.isHip && (hipClangVersion? r.deviceCompiler.version).isNone) = true ↔
      r.UnknownRelease := by
    simp [isHip, UnknownRelease]
  exact if_congr hrelease rfl rfl

/-- The warning comes behind all that may be missing for the variables. -/
theorem environment_events (r : Record) :
    r.environment.events = match r.environment.outcome with
      | .ok _ => r.warnings
      | .error _ => [] := by
  rw [environment, Logged.events_bind_pure]
  simp only [overrides, Logged.events_bind, Logged.outcome_bind, Logged.events_ofExcept,
    Logged.outcome_ofExcept, Logged.events_forM_report, Logged.outcome_forM_report,
    environmentEvents_eq]
  -- both versions are looked up before anything is reported
  cases r.require .cmake with
  | error e => rfl
  | ok cmake =>
    cases r.require .boost with
    | error e => rfl
    | ok boost => exact List.append_nil _

/-- **The events of a record.**  A record reports its job, or nothing if it has none. -/
theorem job_events (r : Record) (version : ContainerVersion) (stage : String) :
    (r.job version stage).events = match (r.job version stage).outcome with
      | .ok j => r.jobEvents j
      | .error _ => [] := by
  simp only [job, Logged.events_bind, Logged.outcome_bind, Logged.events_ofExcept,
    Logged.outcome_ofExcept, environment_events]
  cases r.jobName with
  | error e => rfl
  | ok name =>
    cases r.image version with
    | error e => rfl
    | ok image => cases r.environment.outcome <;> rfl

end Record

namespace Pipeline

variable {version : ContainerVersion}

/-! ## One wave -/

/-- What is reported of records and their jobs. -/
def jobsEvents (rs : List Record) (jobs : List Job) : List LogEvent :=
  (rs.zip jobs).flatMap fun (r, j) => r.jobEvents j

theorem jobsFrom_events_cons (wave index : Nat) (r : Record) (rs : List Record) :
    (jobsFrom version wave index (r :: rs)).events =
      match (r.job version (stageLabel wave)).outcome with
      | .ok j => r.jobEvents j ++ (jobsFrom version wave (index + 1) rs).events
      | .error _ => [] := by
  rw [jobsFrom, Logged.events_bind, Logged.events_adapt, Logged.outcome_adapt, Record.job_events]
  cases (r.job version (stageLabel wave)).outcome with
  | error e => rfl
  | ok j => exact congrArg _ (Logged.events_bind_pure ..)

/-- The records in front of others report their jobs. -/
theorem jobsFrom_events {wave : Nat} {rs : List Record} {jobs : List Job}
    (h : List.Forall₂ (Record.Builds version wave) rs jobs) (rest : List Record) :
    ∀ index, (jobsFrom version wave index (rs ++ rest)).events
      = jobsEvents rs jobs ++ (jobsFrom version wave (index + rs.length) rest).events := by
  induction h with
  | nil => exact fun _ => rfl
  | @cons r j rs jobs hj _ ih =>
    intro index
    have hbuilt : (r.job version (stageLabel wave)).outcome = .ok j := hj
    rw [List.cons_append, jobsFrom_events_cons, hbuilt]
    dsimp only
    rw [ih, jobsEvents, jobsEvents, List.zip_cons_cons, List.flatMap_cons, List.append_assoc,
      List.length_cons, Nat.add_right_comm, Nat.add_assoc]

/-- A wave that succeeds reports its jobs. -/
theorem jobsFrom_events_of_ok {wave index : Nat} {rs : List Record} {jobs : List Job}
    (h : List.Forall₂ (Record.Builds version wave) rs jobs) :
    (jobsFrom version wave index rs).events = jobsEvents rs jobs := by
  have hevents := jobsFrom_events h [] index
  rw [List.append_nil] at hevents
  exact hevents.trans (List.append_nil _)

/-- A wave that fails has a first record that no job can be built from. -/
theorem exists_of_jobsFrom_error {wave : Nat} {rs : List Record} {e : PipelineError} :
    ∀ {index : Nat}, (jobsFrom version wave index rs).outcome = .error e →
      ∃ before r after jobs source, rs = before ++ r :: after ∧
        List.Forall₂ (Record.Builds version wave) before jobs ∧
        (r.job version (stageLabel wave)).outcome = .error source ∧
        e = .job wave (index + before.length) source := by
  induction rs with
  | nil => exact fun h => nomatch h
  | cons r rs ih =>
    intro index h
    rw [jobsFrom, Logged.outcome_bind, Logged.outcome_adapt, bind_eq_error_iff,
      mapError_eq_error_iff] at h
    rcases h with ⟨source, hr, rfl⟩ | ⟨j, hj, h⟩
    · exact ⟨[], r, rs, [], source, rfl, .nil, hr, rfl⟩
    · have hrs : (jobsFrom version wave (index + 1) rs).outcome = .error e := by
        simpa [bind_eq_error_iff] using h
      obtain ⟨before, r', after, jobs, source, rfl, hjobs, hr', rfl⟩ := ih hrs
      refine ⟨r :: before, r', after, j :: jobs, source, rfl,
        .cons (mapError_eq_ok_iff.1 hj) hjobs, hr', ?_⟩
      rw [List.length_cons, Nat.add_right_comm, Nat.add_assoc]

/-- A wave that fails reports the jobs in front of the record that no job can be built from. -/
theorem jobsFrom_events_of_error {wave index : Nat} {before : List Record} {jobs : List Job}
    (hjobs : List.Forall₂ (Record.Builds version wave) before jobs) {r : Record}
    {source : JobError} (hr : (r.job version (stageLabel wave)).outcome = .error source)
    (after : List Record) :
    (jobsFrom version wave index (before ++ r :: after)).events = jobsEvents before jobs := by
  rw [jobsFrom_events hjobs, jobsFrom_events_cons, hr]
  exact List.append_nil _

/-! ## The matrix -/

/-- What is reported of waves and their stages. -/
def stagesEvents (ws : List Wave) (stages : List Stage) : List LogEvent :=
  (ws.zip stages).flatMap fun (w, s) => jobsEvents w s.jobs ++ [s.assembledEvent]

theorem stagesFrom_events_cons (wave : Nat) (w : Wave) (ws : List Wave) :
    (stagesFrom version wave (w :: ws)).events = (jobsFrom version wave 0 w).events ++
      match (jobsFrom version wave 0 w).outcome with
      | .ok jobs => Stage.assembledEvent ⟨stageLabel wave, jobs⟩
          :: (stagesFrom version (wave + 1) ws).events
      | .error _ => [] := by
  rw [stagesFrom, Logged.events_bind]
  cases (jobsFrom version wave 0 w).outcome with
  | error e => rfl
  | ok jobs =>
    dsimp only
    rw [Logged.events_bind, Logged.events_report, Logged.outcome_report]
    dsimp only
    rw [Logged.events_bind_pure]
    rfl

/-- The waves in front of others report their stages. -/
theorem stagesFrom_events {ws : List Wave} {stages : List Stage} (rest : List Wave) :
    ∀ {wave : Nat}, List.Forall₂ (Holds version) (ws.zipIdx wave) stages →
      (stagesFrom version wave (ws ++ rest)).events
        = stagesEvents ws stages ++ (stagesFrom version (wave + ws.length) rest).events := by
  induction ws generalizing stages with
  | nil =>
    intro wave h
    obtain rfl := List.forall₂_nil_left_iff.1 h
    rfl
  | cons w ws ih =>
    intro wave h
    obtain ⟨s, stages, ⟨hlabel, hjobs⟩, hstages, rfl⟩ := List.forall₂_cons_left_iff.1 h
    -- the stage is told by the label it gets here, which is the one it has
    have hs : (⟨stageLabel wave, s.jobs⟩ : Stage) = s := by rw [← hlabel]
    rw [List.cons_append, stagesFrom_events_cons, jobsFrom_outcome_iff.2 hjobs,
      jobsFrom_events_of_ok hjobs]
    dsimp only
    rw [ih hstages, hs, stagesEvents, stagesEvents, List.zip_cons_cons, List.flatMap_cons,
      List.append_assoc, List.append_assoc, List.length_cons, Nat.add_right_comm, Nat.add_assoc]
    rfl

/-- Waves that succeed report their stages. -/
theorem stagesFrom_events_of_ok {wave : Nat} {ws : List Wave} {stages : List Stage}
    (h : List.Forall₂ (Holds version) (ws.zipIdx wave) stages) :
    (stagesFrom version wave ws).events = stagesEvents ws stages := by
  have hevents := stagesFrom_events [] h
  rw [List.append_nil] at hevents
  exact hevents.trans (List.append_nil _)

/-- A matrix that fails has a first wave that fails. -/
theorem exists_of_stagesFrom_error {ws : List Wave} {e : PipelineError} :
    ∀ {wave : Nat}, (stagesFrom version wave ws).outcome = .error e →
      ∃ before w after stages, ws = before ++ w :: after ∧
        List.Forall₂ (Holds version) (before.zipIdx wave) stages ∧
        (jobsFrom version (wave + before.length) 0 w).outcome = .error e := by
  induction ws with
  | nil => exact fun h => nomatch h
  | cons w ws ih =>
    intro wave h
    rw [stagesFrom, Logged.outcome_bind, bind_eq_error_iff] at h
    rcases h with hw | ⟨jobs, hw, h⟩
    · exact ⟨[], w, ws, [], rfl, .nil, hw⟩
    · have hws : (stagesFrom version (wave + 1) ws).outcome = .error e := by
        simpa [bind_eq_error_iff] using h
      obtain ⟨before, w', after, stages, rfl, hstages, hw'⟩ := ih hws
      have hheld : Holds version (w, wave) ⟨stageLabel wave, jobs⟩ :=
        ⟨rfl, jobsFrom_outcome_iff.1 hw⟩
      refine ⟨w :: before, w', after, ⟨stageLabel wave, jobs⟩ :: stages, rfl,
        .cons hheld hstages, ?_⟩
      rwa [List.length_cons, ← Nat.add_assoc, Nat.add_right_comm]

/-- Assembly stops at the record `r`, that no job can be built from: the waves `ws` in front of its
wave have become the stages `stages`, and the records `rs` in front of it in its wave the jobs
`jobs`. -/
structure Stops (version : ContainerVersion) (m : Matrix) (ws : List Wave) (stages : List Stage)
    (rs : List Record) (jobs : List Job) (r : Record) (source : JobError) : Prop where
  matrix : ∃ rest more, m = ws ++ (rs ++ r :: rest) :: more
  holds : List.Forall₂ (Holds version) ws.zipIdx stages
  builds : List.Forall₂ (Record.Builds version ws.length) rs jobs
  fails : (r.job version (stageLabel ws.length)).outcome = .error source

variable {m : Matrix} {template : Template}

theorem assemble_events (m : Matrix) (version : ContainerVersion) (template : Template) :
    (assemble m version template).events = (stagesFrom version 0 m).events ++
      match (stagesFrom version 0 m).outcome with
      | .ok stages => [Pipeline.assembledEvent ⟨stages, .global, template⟩]
      | .error _ => [] := by
  rw [assemble, Logged.events_bind]
  cases (stagesFrom version 0 m).outcome with
  | error e => rfl
  | ok stages =>
    dsimp only
    rw [Logged.events_bind, Logged.events_report, Logged.outcome_report, jobCount_eq]
    exact congrArg _ (List.append_nil _)

/-- **The events of a success**: those of all stages with their jobs, and one of the pipeline. -/
theorem assemble_events_of_ok {p : Pipeline}
    (h : (assemble m version template).outcome = .ok p) :
    (assemble m version template).events = stagesEvents m p.stages ++ [p.assembledEvent] := by
  obtain ⟨hstages, henvironment, htemplate⟩ := assemble_outcome_iff.1 h
  rw [assemble_events, stagesFrom_events_of_ok hstages, stagesFrom_outcome_iff.2 hstages,
    ← henvironment, ← htemplate]

/-- **The events of a failure**: those of the stages and jobs in front of the record that no job
can be built from. -/
theorem assemble_events_of_error {e : PipelineError}
    (h : (assemble m version template).outcome = .error e) :
    ∃ ws stages rs jobs r source, Stops version m ws stages rs jobs r source ∧
      e = .job ws.length rs.length source ∧
      (assemble m version template).events = stagesEvents ws stages ++ jobsEvents rs jobs := by
  have hstages : (stagesFrom version 0 m).outcome = .error e := by
    simpa [assemble, bind_eq_error_iff] using h
  obtain ⟨ws, w, more, stages, rfl, hholds, hw⟩ := exists_of_stagesFrom_error hstages
  obtain ⟨rs, r, rest, jobs, source, rfl, hbuilds, hfails, rfl⟩ := exists_of_jobsFrom_error hw
  have hevents : (assemble (ws ++ (rs ++ r :: rest) :: more) version template).events
      = stagesEvents ws stages ++ jobsEvents rs jobs := by
    rw [assemble_events, hstages, stagesFrom_events _ hholds, stagesFrom_events_cons,
      hw, jobsFrom_events_of_error hbuilds hfails]
    simp only [List.append_nil]
  rw [Nat.zero_add] at hbuilds hfails
  exact ⟨ws, stages, rs, jobs, r, source, ⟨⟨rest, more, rfl⟩, hholds, hbuilds, hfails⟩,
    by rw [Nat.zero_add, Nat.zero_add], hevents⟩

end Pipeline

end JobMatrix
