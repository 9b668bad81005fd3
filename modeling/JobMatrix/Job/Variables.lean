import JobMatrix.Job.Record
import JobMatrix.Log

/-!
# Environment variables of a job

Variables come in layers: a baseline that all jobs share, and what a record overrides.
`Variables.merge` lets the overrides win and drops the names whose value is empty, so an empty
override removes a name.
-/

set_option autoImplicit false

namespace JobMatrix

/-- Environment variables by name. -/
abbrev Variables := Bindings String

/-- The values of a switch. -/
def switch (on : Bool) : String := if on then "ON" else "OFF"

/-- The `clang` that comes with a release of the HIP toolkit. -/
def hipClangVersion? (hip : String) : Option String :=
  [("5.0", "14"), ("5.1", "14"), ("5.2", "14"), ("5.3", "15")].lookup hip

/-- Whether a backend is on in a job before its record is looked at. -/
def Backend.onInJob (b : Backend) : Bool := b == .cpuSerial

namespace Variables

/-- The variables of every job. -/
def baseline : Variables := .ofList [
  ("ALPAKA_CI_OS_NAME", "Linux"),
  ("ALPAKA_CI_BUILD_JOBS", "$CI_CPUS"),
  ("OMP_NUM_THREADS", "$CI_CPUS"),
  ("alpaka_CI", "GITLAB"),
  ("ALPAKA_CI_ANALYSIS", "OFF"),
  ("ALPAKA_CI_SANITIZERS", ""),
  ("ALPAKA_CI_CMAKE_DIR", "$HOME/cmake"),
  ("BOOST_ROOT", "$HOME/boost"),
  ("ALPAKA_CI_BOOST_LIB_DIR", "$HOME/boost_libs"),
  ("BOOST_LIBRARYDIR", "/opt/boost/$\x7bALPAKA_BOOST_VERSION\x7d/lib"),
  ("ALPAKA_CI_CUDA_DIR", "$HOME/cuda"),
  ("ALPAKA_CI_HIP_ROOT_DIR", "$HOME/hip")]

/-- Lays `overrides` over `base` and drops the names bound to nothing. -/
def merge (base overrides : Variables) : Variables :=
  (base.insertAll overrides.entries).filter fun _ value => !value.isEmpty

end Variables

namespace Record

def isHip (r : Record) : Bool := r.deviceCompiler.name == "hipcc"

/-- The variables of a job for HIP. -/
def hipVariables (hip : String) : List (String × String) :=
  [(Backend.flag .gpuHip, switch true), ("CC", "clang"), ("CXX", "clang++"),
    ("GPU_TARGETS", "$\x7bCI_GPU_ARCH\x7d")]
  ++ ((hipClangVersion? hip).map fun clang => ("ALPAKA_CI_CLANG_VER", clang)).toList
  ++ [("ALPAKA_CI_HIP_VERSION", hip), ("ALPAKA_CI_STDLIB", "libstdc++")]

/-- The events on the way to the variables of a record: a warning for a HIP release whose `clang` is
not known. -/
def environmentEvents (r : Record) : List LogEvent :=
  if r.isHip && (hipClangVersion? r.deviceCompiler.version).isNone then
    [{ level := .warn, origin := .environment,
       message := "unknown hip version, ALPAKA_CI_CLANG_VER is not set",
       fields := [("hip_version", .text r.deviceCompiler.version)] }]
  else []

/-- The variables of a record before they are merged with others. -/
def overrides (r : Record) : Logged JobError Variables := do
  let cmake ← Logged.ofExcept (r.require .cmake)
  let boost ← Logged.ofExcept (r.require .boost)
  r.environmentEvents.forM Logged.report
  pure <| .ofList <|
    [("CMAKE_BUILD_TYPE", r.buildType.version),
      ("ALPAKA_CI_RUN_TESTS", switch r.runsTests),
      ("ALPAKA_CI_CMAKE_VER", cmake.version),
      ("ALPAKA_BOOST_VERSION", boost.version)]
    ++ Backend.all.map (fun b => (b.flag, switch b.onInJob))
    ++ if r.isHip then hipVariables r.deviceCompiler.version else []

/-- The variables of the job of a record. -/
def environment (r : Record) : Logged JobError Variables := do
  pure (Variables.baseline.merge (← r.overrides))

end Record

end JobMatrix
