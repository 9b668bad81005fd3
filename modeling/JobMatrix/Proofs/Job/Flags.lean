import JobMatrix.Proofs.Bindings
import JobMatrix.Proofs.Job.Identity
import JobMatrix.Proofs.Pipeline.Verification

/-!
# The flags of the backends

A job binds a flag for each backend.  It is on for the serial backend, for HIP if `hipcc` is the
device compiler, and off for all others (`environment_flag`); the backends that the record enables
have no part in it.  The runner follows those backends and not the compiler, so the two agree only
under conditions: `agrees_iff` gives them.
-/

set_option autoImplicit false

namespace JobMatrix

/-- Names in the upper layer hide those below, and a name bound to nothing is not bound. -/
theorem Variables.get?_merge (base more : Variables) (k : String) :
    (base.merge more).get? k
      = ((more.get? k).or (base.get? k)).filter fun value => !value.isEmpty := by
  rw [merge, Bindings.get?_filter, Bindings.get?_insertAll, ← Bindings.get?_ofList,
    Bindings.ofList_entries]

theorem switch_ne_nil (on : Bool) : (switch on).isEmpty = false := by cases on <;> rfl

theorem switch_eq_on_iff {on : Bool} : switch on = "ON" ↔ on = true := by cases on <;> decide

/-- The backends of graphics processors. -/
def Backend.IsGpu (b : Backend) : Prop :=
  b = .gpuCuda ∨ b = .gpuCudaOnly ∨ b = .gpuHip ∨ b = .gpuHipOnly

namespace Record

variable {r : Record} {e : Variables}

/-! ## Flags in the variables -/

/-- A list of all flags has each of them. -/
theorem lookup_flags (on : Backend → Bool) (b : Backend) :
    (Backend.all.map fun b => (b.flag, switch (on b))).reverse.lookup b.flag
      = some (switch (on b)) := by
  cases b <;> rfl

/-- The variables for HIP switch its flag on and leave the others alone. -/
theorem lookup_hipVariables (hip : String) (b : Backend) :
    (hipVariables hip).reverse.lookup b.flag
      = if b = .gpuHip then some (switch true) else none := by
  rw [hipVariables]
  cases hipClangVersion? hip <;> cases b <;> rfl

/-- Where entries repeat a name, those for HIP count, and then the flags. -/
theorem lookup_overrideEntries (r : Record) (cmake boost : Parameter) (k : String) :
    (r.overrideEntries cmake boost).reverse.lookup k
      = ((if r.isHip then hipVariables r.deviceCompiler.version else []).reverse.lookup k).or
          (((Backend.all.map fun b => (b.flag, switch b.onInJob)).reverse.lookup k).or
            ([("ALPAKA_BOOST_VERSION", boost.version), ("ALPAKA_CI_CMAKE_VER", cmake.version),
              ("ALPAKA_CI_RUN_TESTS", switch r.runsTests),
              ("CMAKE_BUILD_TYPE", r.buildType.version)].lookup k)) := by
  rw [overrideEntries, List.reverse_append, List.lookup_append, List.reverse_append,
    List.lookup_append]
  rfl

/-- **The flags of a job.** -/
theorem environment_flag (h : r.environment.outcome = .ok e) (b : Backend) :
    e.get? b.flag = some (switch (b.onInJob || (r.isHip && b == .gpuHip))) := by
  obtain ⟨cmake, boost, -, -, rfl⟩ := environment_outcome_iff.1 h
  rw [Variables.get?_merge, Bindings.get?_ofList, lookup_overrideEntries, lookup_flags,
    Option.some_or]
  cases hhip : r.isHip with
  | false => simp [switch_ne_nil]
  | true =>
    rw [if_pos rfl, lookup_hipVariables]
    by_cases hb : b = .gpuHip
    · simp [hb, switch_ne_nil]
    · simp [hb, switch_ne_nil, beq_eq_false_iff_ne.2 hb]

theorem flag_eq_on_iff (h : r.environment.outcome = .ok e) (b : Backend) :
    e.get? b.flag = some "ON" ↔ b = .cpuSerial ∨ r.isHip = true ∧ b = .gpuHip := by
  rw [environment_flag h, Option.some.injEq, switch_eq_on_iff]
  simp [Backend.onInJob]

/-! ## The parts of a job -/

theorem tags_eq_iff {a b : Runner} : a.tags = b.tags ↔ a = b := by
  cases a <;> cases b <;> decide

/-- A verified record has a job. -/
theorem exists_job_of_passed (h : (Matrix.verify [[r]]).value.passed) (version : ContainerVersion)
    (stage : String) : ∃ j, (r.job version stage).outcome = .ok j := by
  have hfindings : Matrix.findingsFrom [] [(⟨0, 0⟩, r)] = [] :=
    (Matrix.findings_verify [[r]]).symm.trans (List.isEmpty_iff.1 h)
  obtain ⟨hown, names, hnames, -⟩ := (Matrix.findingsFrom_eq_nil_iff _ _).1 hfindings
  cases hnames with
  | cons hname _ =>
    exact (exists_job_iff r version stage).2 ⟨(hown _ List.mem_cons_self).2, _, hname⟩

/-- The runner of a job and its flags go together, and no flag of a graphics processor is on that
the record leaves out or has as `off`. -/
structure Agrees (r : Record) (j : Job) : Prop where
  cuda : j.body.tags = Runner.cuda.tags →
    j.body.environment.get? (Backend.flag .gpuCuda) = some "ON"
  rocm : j.body.tags = Runner.rocm.tags →
    j.body.environment.get? (Backend.flag .gpuHip) = some "ON"
  off : ∀ b : Backend, b.IsGpu → r.enabled? b = none →
    j.body.environment.get? b.flag ≠ some "ON"

/-- **When the parts of a job agree.**  The job of a verified record agrees exactly if it needs no
CUDA runner, needs a ROCm runner only for `hipcc`, and enables HIP where it has `hipcc`. -/
theorem agrees_iff (h : (Matrix.verify [[r]]).value.passed) (version : ContainerVersion)
    (stage : String) :
    ∃ j, (r.job version stage).outcome = .ok j ∧
      (r.Agrees j ↔ r.runner ≠ .cuda ∧ (r.runner = .rocm → r.isHip) ∧
        (r.isHip → (r.enabled? .gpuHip).isSome)) := by
  obtain ⟨j, hj⟩ := exists_job_of_passed h version stage
  obtain ⟨-, -, henvironment, -, -, htags⟩ := (job_outcome_iff r version stage j).1 hj
  have hcuda : j.body.environment.get? (Backend.flag .gpuCuda) ≠ some "ON" := by
    rw [ne_eq, flag_eq_on_iff henvironment]
    simp
  have hhip : j.body.environment.get? (Backend.flag .gpuHip) = some "ON" ↔ r.isHip = true := by
    rw [flag_eq_on_iff henvironment]
    simp
  refine ⟨j, hj, fun hagrees => ⟨?_, ?_, ?_⟩, fun ⟨hncuda, hrocm, hneeds⟩ => ⟨?_, ?_, ?_⟩⟩
  · exact fun hrunner => hcuda (hagrees.cuda (by rw [htags, hrunner]))
  · exact fun hrunner => hhip.1 (hagrees.rocm (by rw [htags, hrunner]))
  · intro hisHip
    rw [Option.isSome_iff_ne_none]
    exact fun hnone => hagrees.off .gpuHip (.inr (.inr (.inl rfl))) hnone (hhip.2 hisHip)
  · exact fun htag => absurd (tags_eq_iff.1 (htags.symm.trans htag)) hncuda
  · exact fun htag => hhip.2 (hrocm (tags_eq_iff.1 (htags.symm.trans htag)))
  · intro b hgpu hoff hon
    rcases (flag_eq_on_iff henvironment b).1 hon with rfl | ⟨hisHip, rfl⟩
    · simp [Backend.IsGpu] at hgpu
    · have hsome := hneeds hisHip
      rw [hoff] at hsome
      cases hsome

/-- A job for HIP, with a runner that has it. -/
theorem agrees_hip :
    let r := (release ⟨"hipcc", "5.3"⟩ ⟨"gcc", "11"⟩ Parameter.off).set (.backend .gpuHip)
      ⟨Backend.flag .gpuHip, "5.3"⟩
    r.runner = .rocm ∧ ∃ j, (r.job .first "stage0").outcome = .ok j ∧ r.Agrees j := by
  intro r
  obtain ⟨j, hj, hagrees⟩ := agrees_iff (r := r) (by decide +kernel) .first "stage0"
  exact ⟨by decide, j, hj, hagrees.2 (by decide)⟩

/-- **Parts that disagree.**  The job of a record with CUDA goes to a CUDA runner, and builds without
CUDA. -/
theorem cuda_job_disagrees :
    let r := release ⟨"nvcc", "11.2"⟩ ⟨"gcc", "11"⟩ "11.2"
    (Matrix.verify [[r]]).value.passed = true ∧
      ∃ j, (r.job .first "stage0").outcome = .ok j ∧ j.body.tags = Runner.cuda.tags ∧
        j.body.environment.get? (Backend.flag .gpuCuda) = some "OFF" ∧ ¬r.Agrees j := by
  intro r
  have h : (Matrix.verify [[r]]).value.passed = true := by decide +kernel
  obtain ⟨j, hj⟩ := exists_job_of_passed h .first "stage0"
  obtain ⟨-, -, henvironment, -, -, htags⟩ := (job_outcome_iff r .first "stage0" j).1 hj
  have hoff := environment_flag henvironment .gpuCuda
  refine ⟨h, j, hj, htags, hoff, fun hagrees => ?_⟩
  have hon := hagrees.cuda htags
  rw [hoff] at hon
  exact absurd hon (by decide)

end Record

end JobMatrix
