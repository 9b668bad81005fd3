import JobMatrix.Job.Descriptor
import JobMatrix.Proofs.Job.Record

/-!
# The variables of a job

A record with versions of CMake and Boost has variables: its own entries, laid over the baseline
(`environment_outcome_iff`).  Their names are from a fixed list, whatever the record is
(`environment_name`).
-/

set_option autoImplicit false

namespace JobMatrix.Record

/-- The entries that a record lays over the baseline. -/
def overrideEntries (r : Record) (cmake boost : Parameter) : List (String × String) :=
  [("CMAKE_BUILD_TYPE", r.buildType.version),
    ("ALPAKA_CI_RUN_TESTS", switch r.runsTests),
    ("ALPAKA_CI_CMAKE_VER", cmake.version),
    ("ALPAKA_BOOST_VERSION", boost.version)]
  ++ Backend.all.map (fun b => (b.flag, switch b.onInJob))
  ++ if r.isHip then hipVariables r.deviceCompiler.version else []

theorem environment_outcome_iff {r : Record} {e : Variables} :
    r.environment.outcome = .ok e ↔ ∃ cmake boost, r.cmake = some cmake ∧ r.boost = some boost ∧
      e = Variables.baseline.merge (.ofList (r.overrideEntries cmake boost)) := by
  simp only [environment, overrides, Logged.outcome_bind, Logged.outcome_ofExcept,
    Logged.outcome_pure, Logged.outcome_forM_report, bind_eq_ok_iff, Except.ok.injEq,
    require_eq_ok_iff, get?]
  constructor
  · rintro ⟨_, ⟨cmake, hcmake, boost, hboost, -, -, rfl⟩, rfl⟩
    exact ⟨cmake, boost, hcmake, hboost, rfl⟩
  · rintro ⟨cmake, boost, hcmake, hboost, rfl⟩
    exact ⟨_, ⟨cmake, hcmake, boost, hboost, (), trivial, rfl⟩, rfl⟩

/-- The names that the variables of a job may have. -/
def variableNames : List String :=
  Variables.baseline.names
    ++ ["CMAKE_BUILD_TYPE", "ALPAKA_CI_RUN_TESTS", "ALPAKA_CI_CMAKE_VER", "ALPAKA_BOOST_VERSION",
      "CC", "CXX", "GPU_TARGETS", "ALPAKA_CI_CLANG_VER", "ALPAKA_CI_HIP_VERSION", "ALPAKA_CI_STDLIB"]
    ++ Backend.all.map Backend.flag

theorem hipVariables_name {hip : String} {entry : String × String} (h : entry ∈ hipVariables hip) :
    entry.1 ∈ variableNames := by
  have hnames : ∀ name ∈ [Backend.flag .gpuHip, "CC", "CXX", "GPU_TARGETS", "ALPAKA_CI_CLANG_VER",
      "ALPAKA_CI_HIP_VERSION", "ALPAKA_CI_STDLIB"], name ∈ variableNames := by decide
  refine hnames _ ?_
  simp only [hipVariables, List.mem_append, List.mem_cons, List.not_mem_nil, or_false,
    Option.mem_toList, Option.map_eq_some_iff] at h
  rcases h with ((rfl | rfl | rfl | rfl) | ⟨clang, -, rfl⟩) | rfl | rfl <;> simp

/-- **The names of the variables of a job.** -/
theorem environment_name {r : Record} {e : Variables} (h : r.environment.outcome = .ok e)
    {entry : String × String} (hentry : entry ∈ e.entries) : entry.1 ∈ variableNames := by
  obtain ⟨cmake, boost, -, -, rfl⟩ := environment_outcome_iff.1 h
  rcases Bindings.mem_entries_insertAll (List.mem_filter.1 hentry).1 with hentry | hentry
  · exact List.mem_append_left _ (List.mem_append_left _ (List.mem_map_of_mem hentry))
  · have hnames : ∀ name ∈ ["CMAKE_BUILD_TYPE", "ALPAKA_CI_RUN_TESTS", "ALPAKA_CI_CMAKE_VER",
        "ALPAKA_BOOST_VERSION"], name ∈ variableNames := by decide
    rcases List.mem_append.1 (Bindings.mem_entries_ofList hentry) with hentry | hentry
    · rcases List.mem_append.1 hentry with hentry | hentry
      · exact hnames _ (List.mem_map_of_mem (f := Prod.fst) hentry)
      · obtain ⟨b, -, rfl⟩ := List.mem_map.1 hentry
        exact List.mem_append_right _ (List.mem_map_of_mem b.mem_all)
    · split at hentry
      · exact hipVariables_name hentry
      · cases hentry

end JobMatrix.Record
