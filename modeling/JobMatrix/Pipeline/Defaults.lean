import JobMatrix.Job.Variables

/-!
# Variables of the whole pipeline

They apply to every job, the hand-written ones of the template too.  More backends are on here
than in a derived job, which binds all backend flags itself.
-/

set_option autoImplicit false

namespace JobMatrix

/-- Whether a backend is on unless a job says otherwise. -/
def Backend.onInPipeline : Backend → Bool
  | cpuSerial | cpuThreads | cpuOpenMp2Blocks | cpuOpenMp2Threads => true
  | _ => false

/-- The global variables. -/
def Variables.global : Variables := .ofList <| [
  ("ALPAKA_CI_OS_NAME", "Linux"),
  ("ALPAKA_CI_ANALYSIS", "OFF"),
  ("ALPAKA_CI_RUN_TESTS", "ON"),
  ("alpaka_CI", "GITLAB"),
  ("ALPAKA_CI_SANITIZERS", ""),
  ("ALPAKA_CI_INSTALL_CUDA", "OFF"),
  ("ALPAKA_CI_INSTALL_HIP", "OFF"),
  ("ALPAKA_CI_CMAKE_DIR", "$HOME/cmake"),
  ("BOOST_ROOT", "$HOME/boost"),
  ("ALPAKA_CI_BOOST_LIB_DIR", "$HOME/boost_libs"),
  ("ALPAKA_CI_CUDA_DIR", "$HOME/cuda"),
  ("ALPAKA_CI_HIP_ROOT_DIR", "$HOME/hip")]
  ++ Backend.all.map fun b => (b.flag, switch b.onInPipeline)

end JobMatrix
