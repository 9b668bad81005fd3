import JobMatrix.Job.Record

/-!
# Runners

The machine a job needs: one without an accelerator, or one with a GPU of the right vendor.
-/

set_option autoImplicit false

namespace JobMatrix

inductive Runner
  | cpuOnly
  | cuda
  | rocm
deriving DecidableEq, Repr

namespace Runner

/-- The tag of the machines of a class. -/
def capability : Runner → String
  | cpuOnly => "cpuonly"
  | cuda => "cuda"
  | rocm => "rocm"

/-- The tags that select a machine, the architecture first. -/
def tags (r : Runner) : List String := ["x86_64", r.capability]

end Runner

/-- The runner of the job of a record.  A job that only compiles needs no GPU. -/
def Record.runner (r : Record) : Runner :=
  if r.isCompileOnly then .cpuOnly
  else if (r.enabled? .gpuCuda).isSome then .cuda
  else if (r.enabled? .gpuHip).isSome then .rocm
  else .cpuOnly

end JobMatrix
