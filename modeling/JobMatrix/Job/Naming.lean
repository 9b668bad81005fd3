import JobMatrix.Job.Record

/-!
# Job names

Only one job runs under each name, so a name has to tell apart all jobs of a matrix.  It is
`linux_`, the device compiler with what it depends on, a mark for jobs that only compile, and a
suffix with the versions of the record.
-/

set_option autoImplicit false

namespace JobMatrix.Record

/-- The categories in the suffix of a name, in order. -/
def suffixCategories : List Category := [.cmake, .boost, .ubuntu, .cxxStandard, .buildType]

/-- A parameter as it stands in the suffix. -/
def suffixPart (c : Category) (p : Parameter) : String :=
  match c with
  | .cxxStandard => "_cxx" ++ p.version
  | .buildType => "_" ++ p.version
  | _ => "_" ++ p.text

/-- The versions of a record.  A category that is not there adds nothing. -/
def nameSuffix (r : Record) : String :=
  String.join (suffixCategories.map fun c => ((r.get? c).map (suffixPart c)).getD "")

/-- What the device compiler depends on: the host compiler for `nvcc`, and the version of CUDA
for `clang-cuda`, which must be there. -/
def nameDependency (r : Record) : Except JobError String :=
  if r.deviceCompiler.name = "nvcc" then .ok ("-" ++ r.hostCompiler.text)
  else if r.deviceCompiler.name = "clang-cuda" then
    (r.require (.backend .gpuCuda)).map fun cuda => "-cuda" ++ cuda.version
  else .ok ""

/-- The name of the job of a record. -/
def jobName (r : Record) : Except JobError String :=
  r.nameDependency.map fun dependency =>
    "linux_" ++ r.deviceCompiler.text ++ dependency
      ++ (if r.isCompileOnly then "_compile_only" else "") ++ r.nameSuffix

end JobMatrix.Record
