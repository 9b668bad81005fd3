import JobMatrix.Proofs.Job.Accelerator
import JobMatrix.Proofs.Job.Building
import JobMatrix.Proofs.Job.Naming

/-!
# Jobs of one name

Only one job runs under each name, so jobs of one name should have the same body.  They need not:
image and runner follow the accelerator of a record and its host compiler, and a name shows those
for some device compilers only.  `body_eq_iff_of_name_eq` says exactly when jobs of one name have
the same body, for the records that the producer of a matrix makes (`Record.Produced`), and
`name_leaves_out_host` shows two such records whose jobs have one name and two images.

The rest of a body is in the name.  The variables come from the device compiler and from versions
that the name shows (`environment_congr`), and script and stage do not depend on the record.
-/

set_option autoImplicit false

namespace JobMatrix

theorem JobBody.eq_iff {a b : JobBody} :
    a = b ↔ a.image = b.image ∧ a.script = b.script ∧ a.stage = b.stage ∧ a.tags = b.tags ∧
      a.environment = b.environment := by
  obtain ⟨_, _, _, _, _⟩ := a
  obtain ⟨_, _, _, _, _⟩ := b
  exact Iff.of_eq (JobBody.mk.injEq ..)

/-- The container version `1.0`. -/
def ContainerVersion.first : ContainerVersion where
  value := .finite false ⟨Nat.pow 2 52, 1022, by decide, by decide, by decide⟩
  admitted := by decide +kernel

namespace Record

/-! ## Records as they are produced -/

/-- A record of the producer: compilers are known, every other parameter is named as its category,
and versions are numbers, but for the build type, the type of test, and backends that are off. -/
structure Produced (r : Record) : Prop where
  device : r.deviceCompiler.IsCompiler
  host : r.hostCompiler.IsCompiler
  named : ∀ c, c ≠ .hostCompiler → c ≠ .deviceCompiler → ∀ p, r.get? c = some p → p.name = c.key
  buildType : ∀ c ∈ r.buildType.version.toList, c.isAlpha = true
  testType : r.testType.version = "runtime" ∨ r.testType.version = "compile_only"
  software : ∀ c ∈ [Category.cmake, .boost, .ubuntu, .cxxStandard], ∀ p, r.get? c = some p →
    IsNumeric p.version
  backends : ∀ b p, r.backends b = some p → IsNumeric p.version ∨ p.version = Parameter.off

/-- A produced record with a name is one whose name can be read. -/
theorem Produced.nameable {r : Record} (hr : r.Produced) {name : String}
    (h : r.jobName = .ok name) : r.Nameable where
  device := hr.device
  host _ := hr.host
  cuda hcuda := by
    obtain ⟨d, hd, -⟩ := map_eq_ok_iff.1 h
    obtain ⟨p, hp, -⟩ := (nameDependency_clangCuda hcuda).1 hd
    refine ⟨p, hp, ?_⟩
    rcases hr.backends .gpuCuda p hp with hnumeric | hoff
    · exact hnumeric.underscore_not_mem
    · rw [hoff]
      decide
  named c hc := hr.named c (by rintro rfl; simp at hc) (by rintro rfl; simp at hc)
  plain c hc p hp := by
    by_cases hbuild : c = .buildType
    · rw [hbuild] at hp
      obtain rfl := Option.some.inj hp
      exact fun hmem => absurd (hr.buildType '_' hmem) (by decide)
    · have hc : c ∈ [Category.cmake, .boost, .ubuntu, .cxxStandard] := by
        simpa [hbuild] using hc
      exact (hr.software c hc p hp).underscore_not_mem

/-- The tests of a produced record are run or only compiled. -/
theorem Produced.runsTests_eq {r : Record} (hr : r.Produced) :
    r.runsTests = !r.isCompileOnly := by
  rw [runsTests, isCompileOnly]
  rcases hr.testType with h | h <;> rw [h] <;> decide

/-! ## Variables -/

/-- The variables come from versions that the name tells, and from whether the tests are run. -/
theorem environment_congr {r s : Record} (hbuild : r.buildType.version = s.buildType.version)
    (htests : r.runsTests = s.runsTests) (hdevice : r.deviceCompiler = s.deviceCompiler)
    (hcmake : r.cmake.map (·.version) = s.cmake.map (·.version))
    (hboost : r.boost.map (·.version) = s.boost.map (·.version)) {e f : Variables}
    (he : r.environment.outcome = .ok e) (hf : s.environment.outcome = .ok f) : e = f := by
  obtain ⟨cmake, boost, hrc, hrb, rfl⟩ := environment_outcome_iff.1 he
  obtain ⟨cmake', boost', hsc, hsb, rfl⟩ := environment_outcome_iff.1 hf
  rw [hrc, hsc] at hcmake
  rw [hrb, hsb] at hboost
  have hcmake : cmake.version = cmake'.version := Option.some.inj hcmake
  have hboost : boost.version = boost'.version := Option.some.inj hboost
  rw [overrideEntries, overrideEntries, hbuild, htests, hcmake, hboost, isHip, isHip, hdevice]

/-! ## Release builds as examples -/

theorem produced_release {device host : Parameter} {cuda : String} (hdevice : device.IsCompiler)
    (hhost : host.IsCompiler) (hcuda : IsNumeric cuda ∨ cuda = Parameter.off) :
    (release device host cuda).Produced where
  device := hdevice
  host := hhost
  named c hnhost hndevice p hp := by
    cases c with
    | hostCompiler => exact absurd rfl hnhost
    | deviceCompiler => exact absurd rfl hndevice
    | cxxStandard => cases hp
    | backend b =>
      obtain ⟨rfl, rfl⟩ : b = .gpuCuda ∧ ⟨b.flag, cuda⟩ = p := by simpa [get?, release] using hp
      rfl
    | _ => cases hp; rfl
  buildType := List.all_eq_true.1 (show "Release".toList.all Char.isAlpha = true by decide)
  testType := .inl rfl
  software c hc p hp := by
    simp only [List.mem_cons, List.not_mem_nil, or_false] at hc
    rcases hc with rfl | rfl | rfl | rfl <;> cases hp <;> decide
  backends b p hp := by
    obtain ⟨-, rfl⟩ : b = .gpuCuda ∧ ⟨b.flag, cuda⟩ = p := by simpa [release] using hp
    exact hcuda

/-- Without CUDA, and for a compiler that does not need it, a job can be built. -/
theorem exists_job_release (host : Parameter) (version : ContainerVersion) (stage : String) :
    ∃ j, ((release ⟨"gcc", "11"⟩ host Parameter.off).job version stage).outcome = .ok j :=
  (exists_job_iff _ version stage).2 ⟨rfl, _, rfl⟩

/-! ## What a name leaves out -/

/-- Records with one device compiler agree on the mark for `gcc` if, where that compiler is `gcc`,
they agree on whether the host compiler is. -/
theorem gccOnly_eq_iff {r s : Record} (hdevice : r.deviceCompiler = s.deviceCompiler) :
    (r.hostIsGcc && r.deviceCompiler.name == "gcc")
        = (s.hostIsGcc && s.deviceCompiler.name == "gcc") ↔
      (r.deviceCompiler.name = "gcc" → r.hostIsGcc = s.hostIsGcc) := by
  rw [← hdevice]
  by_cases h : r.deviceCompiler.name = "gcc"
  · simp [h]
  · simp [beq_eq_false_iff_ne.2 h, h]

/-- **What a name leaves out.**  Jobs of one name have the same body exactly if their records agree
on the accelerator and, where the device compiler is `gcc`, on whether the host compiler is. -/
theorem body_eq_iff_of_name_eq {r s : Record} (hr : r.Produced) (hs : s.Produced)
    {version : ContainerVersion} {stage : String} {j k : Job}
    (hj : (r.job version stage).outcome = .ok j) (hk : (s.job version stage).outcome = .ok k)
    (hname : j.name = k.name) :
    j.body = k.body ↔
      r.accelerator = s.accelerator ∧
        (r.deviceCompiler.name = "gcc" → r.hostIsGcc = s.hostIsGcc) := by
  obtain ⟨hrn, hri, hre, hrscript, hrstage, hrtags⟩ := (job_outcome_iff r version stage j).1 hj
  obtain ⟨hsn, hsi, hse, hsscript, hsstage, hstags⟩ := (job_outcome_iff s version stage k).1 hk
  obtain ⟨hdevice, -, hmarks, hbuild⟩ :=
    (hr.nameable hrn).name_inj (hs.nameable hsn) hrn (hname ▸ hsn)
  obtain ⟨hcompile, hversions⟩ := nameMarks_inj hmarks
  have himage := image_inj_iff (hversions .ubuntu (by decide)) hri hsi
  rw [gccOnly_eq_iff hdevice, and_comm] at himage
  have htags (h : r.accelerator = s.accelerator) : j.body.tags = k.body.tags := by
    obtain ⟨_, a, -, ha, -⟩ := image_eq_ok_iff.1 hri
    rw [hrtags, hstags, runner_eq ha, runner_eq (h ▸ ha), hcompile]
  have henvironment : j.body.environment = k.body.environment :=
    environment_congr hbuild (by rw [hr.runsTests_eq, hs.runsTests_eq, hcompile]) hdevice
      (hversions .cmake (by decide)) (hversions .boost (by decide)) hre hse
  constructor
  · exact fun hbody => himage.1 (congrArg JobBody.image hbody)
  · intro h
    exact JobBody.eq_iff.2 ⟨himage.2 h, hrscript.trans hsscript.symm, hrstage.trans hsstage.symm,
      htags h.1, henvironment⟩

/-- Host compilers that are not `gcc` make no difference. -/
theorem body_eq_of_other_hosts :
    let r := release ⟨"gcc", "11"⟩ ⟨"clang", "14"⟩ Parameter.off
    let s := release ⟨"gcc", "11"⟩ ⟨"clang", "15"⟩ Parameter.off
    ∃ j k, (r.job .first "stage0").outcome = .ok j ∧ (s.job .first "stage0").outcome = .ok k ∧
      j.name = k.name ∧ j.body = k.body := by
  intro r s
  have hr : r.Produced := produced_release (by decide) (by decide) (.inr rfl)
  have hs : s.Produced := produced_release (by decide) (by decide) (.inr rfl)
  obtain ⟨j, hj⟩ := exists_job_release ⟨"clang", "14"⟩ .first "stage0"
  obtain ⟨k, hk⟩ := exists_job_release ⟨"clang", "15"⟩ .first "stage0"
  have hname : j.name = k.name :=
    Except.ok.inj (((job_outcome_iff _ _ _ j).1 hj).1.symm.trans ((job_outcome_iff _ _ _ k).1 hk).1)
  exact ⟨j, k, hj, hk, hname, (body_eq_iff_of_name_eq hr hs hj hk hname).2 ⟨rfl, fun _ => rfl⟩⟩

/-- **A name does not tell its job.**  The host compiler of `gcc` is in the image and not in the
name. -/
theorem name_leaves_out_host :
    let r := release ⟨"gcc", "11"⟩ ⟨"gcc", "11"⟩ Parameter.off
    let s := release ⟨"gcc", "11"⟩ ⟨"clang", "14"⟩ Parameter.off
    r.Produced ∧ s.Produced ∧
      ∃ j k, (r.job .first "stage0").outcome = .ok j ∧ (s.job .first "stage0").outcome = .ok k ∧
        j.name = k.name ∧ j.body ≠ k.body := by
  intro r s
  refine ⟨produced_release (by decide) (by decide) (.inr rfl),
    produced_release (by decide) (by decide) (.inr rfl), ?_⟩
  obtain ⟨j, hj⟩ := exists_job_release ⟨"gcc", "11"⟩ .first "stage0"
  obtain ⟨k, hk⟩ := exists_job_release ⟨"clang", "14"⟩ .first "stage0"
  obtain ⟨hrn, hri, -⟩ := (job_outcome_iff _ _ _ j).1 hj
  obtain ⟨hsn, hsi, -⟩ := (job_outcome_iff _ _ _ k).1 hk
  refine ⟨j, k, hj, hk, Except.ok.inj (hrn.symm.trans hsn), fun hbody => ?_⟩
  have hubuntu : r.ubuntu.map (·.version) = s.ubuntu.map (·.version) := rfl
  have hmark := ((image_inj_iff hubuntu hri hsi).1 (congrArg JobBody.image hbody)).1
  exact absurd hmark (by decide)

end Record

end JobMatrix
