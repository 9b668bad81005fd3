import JobMatrix.Pipeline.Defaults
import JobMatrix.Proofs.Job.Flags

/-!
# Layers of variables

Variables are laid over each other: the baseline, what a record overrides, and below both the
variables of the pipeline.  The upper layer decides on the names it binds, and an empty value there
takes a name away (`Variables.get?_merge_eq`).  So a layer that is laid down twice counts once
(`Variables.merge_merge`), and the flags of a job hide those of the pipeline.
-/

set_option autoImplicit false

namespace JobMatrix

namespace Variables

/-- What a name is bound to by a layer that gives it this value. -/
def nonEmpty? (value : String) : Option String := if value = "" then none else some value

theorem filter_eq_bind_nonEmpty? (value : Option String) :
    (value.filter fun value => !value.isEmpty) = value.bind nonEmpty? := by
  cases value with
  | none => rfl
  | some value =>
    by_cases h : value = ""
    · subst h
      rfl
    · simp [nonEmpty?, h]

/-- **The upper layer decides** on the names it binds, the lower one on all others. -/
theorem get?_merge_eq (base more : Variables) (name : String) :
    (base.merge more).get? name = match more.get? name with
      | some value => nonEmpty? value
      | none => (base.get? name).bind nonEmpty? := by
  rw [get?_merge, filter_eq_bind_nonEmpty?]
  cases more.get? name <;> rfl

theorem merge_merge (base more : Variables) : (base.merge more).merge more = base.merge more := by
  refine Bindings.ext_get? fun name => ?_
  rw [get?_merge_eq, get?_merge_eq]
  cases more.get? name with
  | some value => rfl
  | none =>
    cases base.get? name with
    | none => rfl
    | some value => by_cases h : value = "" <;> simp [nonEmpty?, h]

theorem ne_empty_of_get?_merge {base more : Variables} {name value : String}
    (h : (base.merge more).get? name = some value) : value ≠ "" := by
  rw [get?_merge] at h
  rintro rfl
  exact absurd (Option.filter_eq_some_iff.1 h).2 (by decide)

end Variables

namespace Record

open Variables (nonEmpty?)

variable {r : Record} {e : Variables}

/-- The names under which a job finds the versions of its record. -/
def versionNames : List String :=
  ["CMAKE_BUILD_TYPE", "ALPAKA_CI_CMAKE_VER", "ALPAKA_BOOST_VERSION"]

/-- No variable for HIP and no flag has one of those names. -/
theorem lookup_version (hip : String) {name : String} (hname : name ∈ versionNames) :
    (hipVariables hip).reverse.lookup name = none ∧
      (Backend.all.map fun b => (b.flag, switch b.onInJob)).reverse.lookup name = none := by
  simp only [versionNames, List.mem_cons, List.not_mem_nil, or_false] at hname
  rw [hipVariables]
  rcases hname with rfl | rfl | rfl <;> cases hipClangVersion? hip <;> exact ⟨rfl, by decide⟩

/-- **The versions in the variables of a job** are those of its record, without the empty ones. -/
theorem environment_version (h : r.environment.outcome = .ok e) :
    ∃ cmake boost, r.cmake = some cmake ∧ r.boost = some boost ∧
      e.get? "CMAKE_BUILD_TYPE" = nonEmpty? r.buildType.version ∧
      e.get? "ALPAKA_CI_CMAKE_VER" = nonEmpty? cmake.version ∧
      e.get? "ALPAKA_BOOST_VERSION" = nonEmpty? boost.version := by
  obtain ⟨cmake, boost, hcmake, hboost, rfl⟩ := environment_outcome_iff.1 h
  have hlookup : ∀ name ∈ versionNames, (r.overrideEntries cmake boost).reverse.lookup name
      = [("ALPAKA_BOOST_VERSION", boost.version), ("ALPAKA_CI_CMAKE_VER", cmake.version),
        ("ALPAKA_CI_RUN_TESTS", switch r.runsTests),
        ("CMAKE_BUILD_TYPE", r.buildType.version)].lookup name := by
    intro name hname
    obtain ⟨hhip, hflags⟩ := lookup_version r.deviceCompiler.version hname
    rw [lookup_overrideEntries, hflags, Option.none_or]
    cases r.isHip with
    | false => rfl
    | true => rw [if_pos rfl, hhip, Option.none_or]
  refine ⟨cmake, boost, hcmake, hboost, ?_, ?_, ?_⟩ <;>
    rw [Variables.get?_merge_eq, Bindings.get?_ofList, hlookup _ (by decide)] <;> rfl

theorem get?_global_flag (b : Backend) :
    Variables.global.get? b.flag = some (switch b.onInPipeline) := by
  rw [Variables.global, Bindings.get?_ofList, List.reverse_append, List.lookup_append, lookup_flags,
    Option.some_or]

/-- The flags of a job hide those below. -/
theorem get?_merge_environment (h : r.environment.outcome = .ok e) (base : Variables)
    (b : Backend) : (base.merge e).get? b.flag = e.get? b.flag := by
  rw [Variables.get?_merge, environment_flag h, Option.some_or]
  simp [switch_ne_nil]

/-- What holds of the variables of a job, above those of the pipeline. -/
structure Layered (r : Record) (e : Variables) : Prop where
  /-- No variable is empty. -/
  value_ne_empty : ∀ name value, e.get? name = some value → value ≠ ""
  /-- Each backend has its flag. -/
  flag_on_or_off : ∀ b : Backend, e.get? b.flag = some "ON" ∨ e.get? b.flag = some "OFF"
  /-- No flag is left to the pipeline. -/
  flag_over_global : ∀ b : Backend, (Variables.global.merge e).get? b.flag = e.get? b.flag
  /-- The versions are those of the record, if they are not empty. -/
  versions : ∃ cmake boost, r.cmake = some cmake ∧ r.boost = some boost ∧
    e.get? "CMAKE_BUILD_TYPE" = nonEmpty? r.buildType.version ∧
    e.get? "ALPAKA_CI_CMAKE_VER" = nonEmpty? cmake.version ∧
    e.get? "ALPAKA_BOOST_VERSION" = nonEmpty? boost.version

theorem layered_environment (h : r.environment.outcome = .ok e) : r.Layered e where
  value_ne_empty name value hvalue := by
    obtain ⟨cmake, boost, -, -, rfl⟩ := environment_outcome_iff.1 h
    exact Variables.ne_empty_of_get?_merge hvalue
  flag_on_or_off b := by
    rw [environment_flag h]
    cases b.onInJob || (r.isHip && b == .gpuHip)
    · exact .inr rfl
    · exact .inl rfl
  flag_over_global := get?_merge_environment h _
  versions := environment_version h

/-- **Layers of variables.**  A name of two layers is bound by the upper one if that has it, and else
by the lower one, never to an empty value; a layer that is laid down again changes nothing.  The
variables of a job are such layers, and bind the flag of each backend above the pipeline. -/
theorem environment_is_layered :
    (∀ (base more : Variables) (name : String), (base.merge more).get? name =
      match more.get? name with
      | some value => nonEmpty? value
      | none => (base.get? name).bind nonEmpty?) ∧
    (∀ base more : Variables, (base.merge more).merge more = base.merge more) ∧
    ∀ (r : Record) (e : Variables), r.environment.outcome = .ok e → r.Layered e :=
  ⟨Variables.get?_merge_eq, Variables.merge_merge, fun _ _ => layered_environment⟩

/-- A job without a build type, for which HIP is on and threads are off, though the pipeline has it
the other way round. -/
theorem environment_is_layered_hip :
    let r := (release ⟨"hipcc", "5.3"⟩ ⟨"gcc", "11"⟩ Parameter.off).set .buildType ⟨"build_type", ""⟩
    ∃ e, r.environment.outcome = .ok e ∧ r.Layered e ∧ e.get? "CMAKE_BUILD_TYPE" = none ∧
      (Variables.global.merge e).get? (Backend.flag .gpuHip) = some "ON" ∧
      (Variables.global.merge e).get? (Backend.flag .cpuThreads) = some "OFF" ∧
      Variables.global.get? (Backend.flag .gpuHip) = some "OFF" ∧
      Variables.global.get? (Backend.flag .cpuThreads) = some "ON" := by
  intro r
  obtain ⟨e, he⟩ : ∃ e, r.environment.outcome = .ok e :=
    ⟨_, environment_outcome_iff.2 ⟨_, _, rfl, rfl, rfl⟩⟩
  have hlayered := environment_is_layered.2.2 r e he
  obtain ⟨_, _, -, -, hbuildType, -⟩ := hlayered.versions
  refine ⟨e, he, hlayered, hbuildType, ?_, ?_, get?_global_flag _, get?_global_flag _⟩ <;>
    rw [hlayered.flag_over_global, environment_flag he] <;> rfl

end Record

end JobMatrix
