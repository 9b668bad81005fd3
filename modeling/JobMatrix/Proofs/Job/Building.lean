import JobMatrix.Pipeline.Verification
import JobMatrix.Proofs.Job.Variables

/-!
# When a job can be built

`Record.job` fails where one of the rules for name, image and variables fails.  `job_outcome_iff`
takes a success apart into those of the rules, and `exists_job_iff` says that the versions checked
by `Record.checkVersions` and the name are all that can go wrong.  The container version and the
stage play no part in that.
-/

set_option autoImplicit false

namespace JobMatrix.Record

/-! ## The rules one by one -/

/-- The image has what it needs: an Ubuntu version, and a CUDA version that stands for a number if
CUDA is enabled. -/
theorem exists_image_iff (r : Record) (version : ContainerVersion) :
    (∃ image, r.image version = .ok image) ↔
      (∃ ubuntu, r.require .ubuntu = .ok ubuntu) ∧
        ∀ cuda, r.enabled? .gpuCuda = some cuda → ∃ tag, cudaTag cuda = .ok tag := by
  have haccelerator : (∃ text, r.imageAccelerator = .ok text) ↔
      ∀ cuda, r.enabled? .gpuCuda = some cuda → ∃ tag, cudaTag cuda = .ok tag := by
    rw [imageAccelerator]
    cases hcuda : r.enabled? .gpuCuda with
    | some cuda => simp [map_eq_ok_iff]
    | none =>
      cases hhip : r.enabled? .gpuHip <;> simp
  simp only [image, bind_eq_ok_iff, Except.ok.injEq]
  constructor
  · rintro ⟨_, ubuntu, hubuntu, text, htext, -⟩
    exact ⟨⟨ubuntu, hubuntu⟩, haccelerator.1 ⟨text, htext⟩⟩
  · rintro ⟨⟨ubuntu, hubuntu⟩, hcuda⟩
    obtain ⟨text, htext⟩ := haccelerator.2 hcuda
    exact ⟨_, ubuntu, hubuntu, text, htext, rfl⟩

/-- The variables need a version of CMake and one of Boost. -/
theorem exists_environment_iff (r : Record) :
    (∃ environment, r.environment.outcome = .ok environment) ↔
      (∃ cmake, r.require .cmake = .ok cmake) ∧ ∃ boost, r.require .boost = .ok boost := by
  simp only [environment_outcome_iff, require_eq_ok_iff, get?]
  constructor
  · rintro ⟨_, cmake, boost, hcmake, hboost, -⟩
    exact ⟨⟨cmake, hcmake⟩, boost, hboost⟩
  · rintro ⟨⟨cmake, hcmake⟩, boost, hboost⟩
    exact ⟨_, cmake, boost, hcmake, hboost, rfl⟩

/-- The check of versions asks for what image and variables need. -/
theorem checkVersions_eq_ok_iff (r : Record) :
    r.checkVersions = .ok () ↔
      ((∃ ubuntu, r.require .ubuntu = .ok ubuntu) ∧
        ∀ cuda, r.enabled? .gpuCuda = some cuda → ∃ tag, cudaTag cuda = .ok tag) ∧
      (∃ cmake, r.require .cmake = .ok cmake) ∧ ∃ boost, r.require .boost = .ok boost := by
  simp only [checkVersions, bind_eq_ok_iff]
  cases r.enabled? .gpuCuda with
  | none =>
    constructor
    · rintro ⟨ubuntu, hubuntu, cmake, hcmake, boost, hboost, -⟩
      exact ⟨⟨⟨ubuntu, hubuntu⟩, fun _ h => by cases h⟩, ⟨cmake, hcmake⟩, boost, hboost⟩
    · rintro ⟨⟨⟨ubuntu, hubuntu⟩, -⟩, ⟨cmake, hcmake⟩, boost, hboost⟩
      exact ⟨ubuntu, hubuntu, cmake, hcmake, boost, hboost, rfl⟩
  | some cuda =>
    simp only [map_eq_ok_iff]
    constructor
    · rintro ⟨ubuntu, hubuntu, cmake, hcmake, boost, hboost, tag, htag, -⟩
      exact ⟨⟨⟨ubuntu, hubuntu⟩, fun _ h => by cases h; exact ⟨tag, htag⟩⟩, ⟨cmake, hcmake⟩,
        boost, hboost⟩
    · rintro ⟨⟨⟨ubuntu, hubuntu⟩, h⟩, ⟨cmake, hcmake⟩, boost, hboost⟩
      obtain ⟨tag, htag⟩ := h cuda rfl
      exact ⟨ubuntu, hubuntu, cmake, hcmake, boost, hboost, tag, htag, trivial⟩

/-! ## The job -/

/-- A job is built from the name, the image and the variables of its record. -/
theorem job_outcome_iff (r : Record) (version : ContainerVersion) (stage : String) (j : Job) :
    (r.job version stage).outcome = .ok j ↔
      r.jobName = .ok j.name ∧ r.image version = .ok j.body.image ∧
        r.environment.outcome = .ok j.body.environment ∧
        j.body.script = jobScript ∧ j.body.stage = stage ∧ j.body.tags = r.runner.tags := by
  obtain ⟨name, image, script, label, tags, environment⟩ := j
  simp only [job, Logged.outcome_bind, Logged.outcome_ofExcept, Logged.outcome_pure,
    Logged.outcome_report, bind_eq_ok_iff, Except.ok.injEq, Job.mk.injEq, JobBody.mk.injEq]
  constructor
  · rintro ⟨_, hname, _, himage, _, henvironment, _, -, rfl, rfl, rfl, rfl, rfl, rfl⟩
    exact ⟨hname, himage, henvironment, rfl, rfl, rfl⟩
  · rintro ⟨hname, himage, henvironment, rfl, rfl, rfl⟩
    exact ⟨name, hname, image, himage, environment, henvironment, (), trivial, rfl, rfl, rfl,
      rfl, rfl, rfl⟩

/-- **When a job can be built.**  The versions that image and variables need are there, and the
record has a name. -/
theorem exists_job_iff (r : Record) (version : ContainerVersion) (stage : String) :
    (∃ j, (r.job version stage).outcome = .ok j) ↔
      r.checkVersions = .ok () ∧ ∃ name, r.jobName = .ok name := by
  rw [checkVersions_eq_ok_iff, ← exists_image_iff r version, ← exists_environment_iff]
  simp only [job_outcome_iff]
  constructor
  · rintro ⟨j, hname, himage, henvironment, -⟩
    exact ⟨⟨⟨_, himage⟩, _, henvironment⟩, _, hname⟩
  · rintro ⟨⟨⟨image, himage⟩, environment, henvironment⟩, name, hname⟩
    exact ⟨⟨name, image, jobScript, stage, r.runner.tags, environment⟩,
      hname, himage, henvironment, rfl, rfl, rfl⟩

end JobMatrix.Record
