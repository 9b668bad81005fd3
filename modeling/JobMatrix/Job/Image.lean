import JobMatrix.Job.ContainerVersion
import JobMatrix.Job.Record

/-!
# Container images

The image of a job is named for its Ubuntu version, a mark if only `gcc` is needed, and the
accelerator: the shaped CUDA version, or the HIP version.
-/

set_option autoImplicit false

namespace JobMatrix

/-- The tag of a CUDA version in image names: ten times the version without its fraction, so `11.0`
becomes `110`.  It must fit a signed word of 64 bits. -/
def cudaTag (version : String) : Except JobError Int :=
  let scaled := (Binary64.parse? (Text.trim version.toList)).bind fun x =>
    (x.scaleBy 10).truncate?
  match scaled.filter fun n : Int => -(Nat.pow 2 63 : Nat) ≤ n && n < (Nat.pow 2 63 : Nat) with
  | some n => .ok n
  | none => .error (.invalidVersion (.backend .gpuCuda) version)

namespace Record

def hostIsGcc (r : Record) : Bool := r.hostCompiler.name == "gcc"

/-- The mark of images with no other compiler than `gcc`. -/
def gccMark (marked : Bool) : String := if marked then "-gcc" else ""

/-- The accelerator in an image name.  CUDA comes before HIP. -/
def imageAccelerator (r : Record) : Except JobError String :=
  match r.enabled? .gpuCuda with
  | some cuda => (cudaTag cuda).map fun tag => "-cuda" ++ toString tag ++ gccMark r.hostIsGcc
  | none =>
    match r.enabled? .gpuHip with
    | some hip => .ok ("-rocm" ++ hip)
    | none => .ok ""

/-- The image of the job of a record. -/
def image (r : Record) (version : ContainerVersion) : Except JobError String := do
  let ubuntu ← r.require .ubuntu
  let accelerator ← r.imageAccelerator
  .ok ("registry.hzdr.de/crp/alpaka-group-container/" ++ "alpaka-ci-ubuntu" ++ ubuntu.version
    ++ gccMark (r.hostIsGcc && r.deviceCompiler.name == "gcc") ++ accelerator ++ ":"
    ++ version.tag)

end Record

end JobMatrix
