import JobMatrix.Pipeline.Document
import JobMatrix.Proofs.Log
import JobMatrix.Proofs.Pipeline.Position
import Mathlib.Data.List.Forall2

/-!
# What assembly gives

`Pipeline.assemble` builds the jobs of a matrix one after the other.

* `assemble_outcome_iff` describes a success: one stage for each wave, and in it one job for each
  record, both in order.
* `failureOf?_assemble` describes a failure: it is that of the first record in
  `Matrix.positioned` whose job cannot be built.
-/

set_option autoImplicit false

namespace JobMatrix

/-- The record at a position becomes the job `j`. -/
def Record.Builds (version : ContainerVersion) (wave : Nat) (r : Record) (j : Job) : Prop :=
  (r.job version (stageLabel wave)).outcome = .ok j

/-- The failure to build the job of a record, with the position of the record. -/
def Pipeline.failureAt? (version : ContainerVersion) (entry : Position × Record) :
    Option PipelineError :=
  (failureOf? (entry.2.job version (stageLabel entry.1.wave)).outcome).map
    (PipelineError.job entry.1.wave entry.1.index)

namespace Pipeline

variable {version : ContainerVersion}

theorem failureAt?_eq_none_iff_builds (q : Position × Record) :
    failureAt? version q = none ↔ ∃ j, q.2.Builds version q.1.wave j := by
  rw [failureAt?, Option.map_eq_none_iff, failureOf?_eq_none_iff]
  rfl

/-! ## One wave -/

theorem jobsFrom_outcome_iff {wave : Nat} {rs : List Record} {jobs : List Job} :
    ∀ {index : Nat}, (jobsFrom version wave index rs).outcome = .ok jobs ↔
      List.Forall₂ (Record.Builds version wave) rs jobs := by
  induction rs generalizing jobs with
  | nil =>
    intro index
    rw [jobsFrom, Logged.outcome_pure, Except.ok.injEq, List.forall₂_nil_left_iff, eq_comm]
  | cons r rs ih =>
    intro index
    simp only [jobsFrom, Logged.outcome_bind, Logged.outcome_adapt, Logged.outcome_pure,
      bind_eq_ok_iff, mapError_eq_ok_iff, Except.ok.injEq, List.forall₂_cons_left_iff, ih]
    constructor
    · rintro ⟨j, hj, js, hjs, rfl⟩
      exact ⟨j, js, hj, hjs, rfl⟩
    · rintro ⟨j, js, hj, hjs, rfl⟩
      exact ⟨j, hj, js, hjs, rfl⟩

theorem failureOf?_jobsFrom {wave : Nat} {rs : List Record} :
    ∀ {index : Nat}, failureOf? (jobsFrom version wave index rs).outcome
      = (Matrix.positionedFrom wave rs index).findSome? (failureAt? version) := by
  induction rs with
  | nil => intro index; rfl
  | cons r rs ih =>
    intro index
    rw [Matrix.positionedFrom_cons, List.findSome?_cons, ← ih, failureAt?]
    simp only [jobsFrom, Logged.outcome_bind, Logged.outcome_adapt, Logged.outcome_pure]
    cases (r.job version (stageLabel wave)).outcome with
    | error e => rfl
    | ok j =>
      change failureOf? ((jobsFrom version wave (index + 1) rs).outcome >>= _) = _
      cases (jobsFrom version wave (index + 1) rs).outcome <;> rfl

/-! ## The matrix -/

/-- The stage `s` holds the jobs of a wave. -/
def Holds (version : ContainerVersion) (entry : Wave × Nat) (s : Stage) : Prop :=
  s.label = stageLabel entry.2 ∧ List.Forall₂ (Record.Builds version entry.2) entry.1 s.jobs

theorem stagesFrom_outcome_iff {ws : List Wave} {stages : List Stage} :
    ∀ {wave : Nat}, (stagesFrom version wave ws).outcome = .ok stages ↔
      List.Forall₂ (Holds version) (ws.zipIdx wave) stages := by
  induction ws generalizing stages with
  | nil =>
    intro wave
    rw [stagesFrom, Logged.outcome_pure, Except.ok.injEq, List.zipIdx_nil,
      List.forall₂_nil_left_iff, eq_comm]
  | cons w ws ih =>
    intro wave
    simp only [stagesFrom, Logged.outcome_bind, Logged.outcome_report, Logged.outcome_pure,
      bind_eq_ok_iff, Except.ok.injEq, List.zipIdx_cons, List.forall₂_cons_left_iff, ih,
      jobsFrom_outcome_iff]
    constructor
    · rintro ⟨jobs, hjobs, -, -, rest, hrest, rfl⟩
      exact ⟨⟨stageLabel wave, jobs⟩, rest, ⟨rfl, hjobs⟩, hrest, rfl⟩
    · rintro ⟨⟨label, jobs⟩, rest, ⟨hlabel, hjobs⟩, hrest, rfl⟩
      change label = _ at hlabel
      exact ⟨jobs, hjobs, (), trivial, rest, hrest, by rw [hlabel]⟩

theorem failureOf?_stagesFrom {ws : List Wave} :
    ∀ {wave : Nat}, failureOf? (stagesFrom version wave ws).outcome
      = ((ws.zipIdx wave).flatMap fun (w, i) => Matrix.positionedFrom i w 0).findSome?
          (failureAt? version) := by
  induction ws with
  | nil => intro wave; rfl
  | cons w ws ih =>
    intro wave
    rw [List.zipIdx_cons, List.flatMap_cons, List.findSome?_append, ← ih, ← failureOf?_jobsFrom]
    simp only [stagesFrom, Logged.outcome_bind, Logged.outcome_report, Logged.outcome_pure]
    cases (jobsFrom version wave 0 w).outcome with
    | error e => rfl
    | ok jobs =>
      change failureOf? ((stagesFrom version (wave + 1) ws).outcome >>= _) = _
      cases (stagesFrom version (wave + 1) ws).outcome <;> rfl

/-- **A success of assembly.**  The stages hold the jobs of the waves in order; variables and
template are the given ones. -/
theorem assemble_outcome_iff {m : Matrix} {template : Template} {p : Pipeline} :
    (assemble m version template).outcome = .ok p ↔
      List.Forall₂ (Holds version) m.zipIdx p.stages ∧
        p.environment = Variables.global ∧ p.template = template := by
  simp only [assemble, Logged.outcome_bind, Logged.outcome_report, Logged.outcome_pure,
    bind_eq_ok_iff, Except.ok.injEq, stagesFrom_outcome_iff]
  constructor
  · rintro ⟨stages, hstages, -, -, rfl⟩
    exact ⟨hstages, rfl, rfl⟩
  · rintro ⟨hstages, henvironment, rfl⟩
    refine ⟨p.stages, hstages, (), trivial, ?_⟩
    rw [← henvironment]

/-- **A failure of assembly** is that of the first record that no job can be built from. -/
theorem failureOf?_assemble (version : ContainerVersion) (m : Matrix) (template : Template) :
    failureOf? (assemble m version template).outcome
      = m.positioned.findSome? (failureAt? version) := by
  rw [Matrix.positioned_eq, ← failureOf?_stagesFrom]
  simp only [assemble, Logged.outcome_bind, Logged.outcome_report, Logged.outcome_pure]
  cases (stagesFrom version 0 m).outcome <;> rfl

/-- No failure means that every record has its job. -/
theorem builds_of_assemble {m : Matrix} {template : Template} {p : Pipeline}
    (h : (assemble m version template).outcome = .ok p) {q : Position × Record}
    (hq : q ∈ m.positioned) : ∃ j, q.2.Builds version q.1.wave j := by
  have hnone : failureOf? (assemble m version template).outcome = none := by rw [h, failureOf?_ok]
  rw [failureOf?_assemble, List.findSome?_eq_none_iff] at hnone
  exact (failureAt?_eq_none_iff_builds q).1 (hnone q hq)

/-- Every job is built from a record. -/
theorem exists_builds_of_mem_jobs {m : Matrix} {template : Template} {p : Pipeline}
    (h : (assemble m version template).outcome = .ok p) {j : Job} (hj : j ∈ p.jobs) :
    ∃ r wave, Record.Builds version wave r j := by
  have hleft {α β : Type} {R : α → β → Prop} {as : List α} {bs : List β}
      (h : List.Forall₂ R as bs) {b : β} (hb : b ∈ bs) : ∃ a, R a b := by
    obtain ⟨i, hi, rfl⟩ := List.getElem_of_mem hb
    have hi' : i < as.length := h.length_eq ▸ hi
    exact ⟨as[i], h.get hi' hi⟩
  obtain ⟨s, hs, hj⟩ := List.mem_flatMap.1 hj
  obtain ⟨entry, hentry⟩ := hleft (assemble_outcome_iff.1 h).1 hs
  obtain ⟨r, hr⟩ := hleft hentry.2 hj
  exact ⟨r, entry.2, hr⟩

theorem length_stages_of_assemble {m : Matrix} {template : Template} {p : Pipeline}
    (h : (assemble m version template).outcome = .ok p) : p.stages.length = m.length := by
  rw [← (assemble_outcome_iff.1 h).1.length_eq, List.length_zipIdx]

theorem jobCount_eq (p : Pipeline) : p.jobCount = p.jobs.length := by
  rw [jobCount, jobs, List.length_flatMap, List.sum_eq_foldl_nat, List.foldl_map]

/-- A pipeline has as many jobs as the matrix has records. -/
theorem jobCount_of_assemble {m : Matrix} {template : Template} {p : Pipeline}
    (h : (assemble m version template).outcome = .ok p) : p.jobCount = m.jobCount := by
  have hlengths : List.Forall₂ Eq (m.zipIdx.map fun entry => entry.1.length)
      (p.stages.map (·.jobs.length)) := by
    rw [List.forall₂_map_left_iff, List.forall₂_map_right_iff]
    exact (assemble_outcome_iff.1 h).1.imp fun entry s hs => hs.2.length_eq
  have hwaves : m.zipIdx.map (fun entry => entry.1.length) = m.map List.length := by
    conv_rhs => rw [← List.zipIdx_map_fst 0 m, List.map_map]
    rfl
  rw [List.forall₂_eq_eq_eq] at hlengths
  rw [jobCount_eq, Matrix.jobCount_eq, jobs, List.length_flatMap, List.length_flatten, ← hwaves,
    hlengths]

end Pipeline

end JobMatrix
