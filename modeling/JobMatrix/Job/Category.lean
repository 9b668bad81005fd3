/-!
# Parameter categories

A point of the build matrix binds values to categories: compilers, software versions, the kind of
build and of test, and the enable flags of the accelerator backends.  The set of categories is
closed, and each has the key it goes by in matrix files.  `Category.key` and `Category.ofKey?` list
these keys each on their own.
-/

set_option autoImplicit false

namespace JobMatrix

/-- Accelerator backends with an enable flag, in the order of their flags. -/
inductive Backend
  | anyOpenAcc
  | anyOpenMp5
  | cpuOpenMp2Blocks
  | cpuFibers
  | cpuOpenMp2Threads
  | cpuSerial
  | cpuThreads
  | cpuTbbBlocks
  | gpuCuda
  | gpuCudaOnly
  | gpuHip
  | gpuHipOnly
deriving DecidableEq, Repr, Ord

namespace Backend

/-- All backends, ordered by their flags. -/
def all : List Backend :=
  [anyOpenAcc, anyOpenMp5, cpuOpenMp2Blocks, cpuFibers, cpuOpenMp2Threads, cpuSerial, cpuThreads,
    cpuTbbBlocks, gpuCuda, gpuCudaOnly, gpuHip, gpuHipOnly]

/-- The name of the flag, both in matrix files and as build option. -/
def flag : Backend → String
  | anyOpenAcc => "alpaka_ACC_ANY_BT_OACC_ENABLE"
  | anyOpenMp5 => "alpaka_ACC_ANY_BT_OMP5_ENABLE"
  | cpuOpenMp2Blocks => "alpaka_ACC_CPU_B_OMP2_T_SEQ_ENABLE"
  | cpuFibers => "alpaka_ACC_CPU_B_SEQ_T_FIBERS_ENABLE"
  | cpuOpenMp2Threads => "alpaka_ACC_CPU_B_SEQ_T_OMP2_ENABLE"
  | cpuSerial => "alpaka_ACC_CPU_B_SEQ_T_SEQ_ENABLE"
  | cpuThreads => "alpaka_ACC_CPU_B_SEQ_T_THREADS_ENABLE"
  | cpuTbbBlocks => "alpaka_ACC_CPU_B_TBB_T_SEQ_ENABLE"
  | gpuCuda => "alpaka_ACC_GPU_CUDA_ENABLE"
  | gpuCudaOnly => "alpaka_ACC_GPU_CUDA_ONLY_MODE"
  | gpuHip => "alpaka_ACC_GPU_HIP_ENABLE"
  | gpuHipOnly => "alpaka_ACC_GPU_HIP_ONLY_MODE"

/-- The backend with this flag. -/
def ofFlag? (flag : String) : Option Backend := all.find? fun b => b.flag == flag

theorem mem_all (b : Backend) : b ∈ all := by cases b <;> decide

end Backend

/-- Parameter categories, in the order in which a record lists its parameters. -/
inductive Category
  | hostCompiler
  | deviceCompiler
  | cmake
  | boost
  | ubuntu
  | cxxStandard
  | buildType
  | testType
  | backend (b : Backend)
deriving DecidableEq, Repr, Ord

namespace Category

/-- All categories, in order. -/
def all : List Category :=
  [hostCompiler, deviceCompiler, cmake, boost, ubuntu, cxxStandard, buildType, testType]
    ++ Backend.all.map backend

/-- The key of the category in matrix files. -/
def key : Category → String
  | hostCompiler => "host_compiler"
  | deviceCompiler => "device_compiler"
  | cmake => "cmake"
  | boost => "boost"
  | ubuntu => "ubuntu"
  | cxxStandard => "cxx_standard"
  | buildType => "build_type"
  | testType => "test_type"
  | backend b => b.flag

/-- The category with this key. -/
def ofKey? : String → Option Category
  | "host_compiler" => some hostCompiler
  | "device_compiler" => some deviceCompiler
  | "cmake" => some cmake
  | "boost" => some boost
  | "ubuntu" => some ubuntu
  | "cxx_standard" => some cxxStandard
  | "build_type" => some buildType
  | "test_type" => some testType
  | flag => (Backend.ofFlag? flag).map backend

/-- The categories every record has. -/
def required : List Category := [hostCompiler, deviceCompiler, buildType, testType]

theorem mem_all (c : Category) : c ∈ all := by
  cases c
  case backend b =>
    exact List.mem_append_right _ (List.mem_map.2 ⟨b, b.mem_all, rfl⟩)
  all_goals decide

/-! ## The order of categories -/

instance : LT Category := ltOfOrd

instance : LE Category := leOfOrd

instance : DecidableLT Category := fun c d => inferInstanceAs (Decidable (compare c d = .lt))

/-- Categories are ordered by their places in the list of all. -/
theorem compare_eq (c d : Category) : compare c d = compare (all.idxOf c) (all.idxOf d) := by
  have hall : ∀ c ∈ all, ∀ d ∈ all, compare c d = compare (all.idxOf c) (all.idxOf d) := by
    decide +kernel
  exact hall c c.mem_all d d.mem_all

theorem le_iff {c d : Category} : c ≤ d ↔ all.idxOf c ≤ all.idxOf d := by
  rw [← Nat.isLE_compare, ← compare_eq]
  rfl

theorem lt_iff {c d : Category} : c < d ↔ all.idxOf c < all.idxOf d := by
  rw [← Nat.compare_eq_lt, ← compare_eq]
  rfl

instance : Std.IsLinearOrder Category where
  le_refl c := le_iff.2 (Nat.le_refl _)
  le_trans c d e hcd hde := le_iff.2 (Nat.le_trans (le_iff.1 hcd) (le_iff.1 hde))
  le_antisymm c d hcd hdc := by
    have heq := Nat.le_antisymm (le_iff.1 hcd) (le_iff.1 hdc)
    have hc := List.getElem_idxOf (List.idxOf_lt_length_of_mem c.mem_all)
    have hd := List.getElem_idxOf (List.idxOf_lt_length_of_mem d.mem_all)
    simp only [heq] at hc
    exact hc.symm.trans hd
  le_total c d := by
    rw [le_iff, le_iff]
    exact Nat.le_total _ _

instance : Std.LawfulOrderLT Category where
  lt_iff c d := by
    rw [lt_iff, le_iff, le_iff]
    omega

end Category

end JobMatrix
