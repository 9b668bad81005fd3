import JobMatrix.Job.Image
import JobMatrix.Job.Runner
import JobMatrix.Proofs.Job.Record
import Std.Data.String.ToInt

/-!
# What the image of a job tells

The image and the runner of a job both come from the accelerator that its record asks for.  An
`Accelerator` is what the image shows of it, so images for one version of Ubuntu are the same
exactly if they show the same accelerator and agree on the mark for `gcc` (`image_inj_iff`), and the
runner of a job is the one of its accelerator (`runner_eq`).
-/

set_option autoImplicit false

namespace JobMatrix

/-- The accelerator that a record asks for, as its image shows it. -/
inductive Accelerator
  | none
  | cuda (tag : Int) (gccHost : Bool)
  | hip (version : String)
deriving DecidableEq

namespace Accelerator

/-- The part of an accelerator in an image name. -/
def mark : Accelerator → String
  | none => ""
  | cuda tag gccHost => "-cuda" ++ toString tag ++ Record.gccMark gccHost
  | hip version => "-rocm" ++ version

/-- The machines that have the accelerator. -/
def runner : Accelerator → Runner
  | none => .cpuOnly
  | cuda _ _ => .cuda
  | hip _ => .rocm

/-! ## Reading marks -/

theorem c_not_mem_toString (n : Int) : 'c' ∉ (toString n).toList := by
  have hnat (n : Nat) : 'c' ∉ n.repr.toList := by
    rw [Nat.repr, String.toList_ofList]
    exact fun h => absurd (Nat.isDigit_of_mem_toDigits (by decide) (by decide) h) (by decide)
  cases n with
  | ofNat n => exact hnat n
  | negSucc n =>
    change 'c' ∉ ("-" ++ (n + 1).repr).toList
    rw [String.toList_append, List.mem_append]
    exact not_or.2 ⟨by decide, hnat _⟩

/-- The end of a CUDA mark: the number of the tag has no letters. -/
theorem toString_append_gccMark_inj {m n : Int} {a b : Bool}
    (h : toString m ++ Record.gccMark a = toString n ++ Record.gccMark b) : m = n ∧ a = b := by
  have hletter (m : Int) (a : Bool) :
      'c' ∈ (toString m ++ Record.gccMark a).toList ↔ a = true := by
    rw [String.toList_append, List.mem_append, or_iff_right (c_not_mem_toString m)]
    cases a <;> decide
  have hab : a = b := by
    rw [Bool.eq_iff_iff, ← hletter m a, h, hletter n b]
  rw [hab, String.append_left_inj] at h
  exact ⟨Int.repr_injective h, hab⟩

theorem mark_injective : Function.Injective mark := by
  intro a b h
  have hchars := congrArg String.toList h
  cases a with
  | none => cases b <;> simp [mark] at hchars ⊢
  | cuda m g =>
    cases b with
    | cuda n g' =>
      rw [mark, mark, String.append_assoc, String.append_assoc, String.append_right_inj] at h
      obtain ⟨rfl, rfl⟩ := toString_append_gccMark_inj h
      rfl
    | _ => simp [mark] at hchars
  | hip v =>
    cases b with
    | hip w => rw [(String.append_right_inj _).1 h]
    | _ => simp [mark] at hchars

/-- **The marks of an image** tell whether `gcc` is the only compiler, and the accelerator. -/
theorem gccMark_append_mark_inj {x y : Bool} {a b : Accelerator}
    (h : Record.gccMark x ++ a.mark = Record.gccMark y ++ b.mark) : x = y ∧ a = b := by
  -- no accelerator is marked like `gcc`
  have hother (a b : Accelerator) :
      Record.gccMark true ++ a.mark ≠ Record.gccMark false ++ b.mark := by
    intro h
    have hchars := congrArg String.toList h
    cases b <;> simp [mark, Record.gccMark] at hchars
  cases x with
  | false =>
    cases y with
    | false => exact ⟨rfl, mark_injective ((String.append_right_inj _).1 h)⟩
    | true => exact absurd h.symm (hother b a)
  | true =>
    cases y with
    | false => exact absurd h (hother a b)
    | true => exact ⟨rfl, mark_injective ((String.append_right_inj _).1 h)⟩

end Accelerator

namespace Record

/-- The accelerator of a record.  CUDA comes before HIP. -/
def accelerator (r : Record) : Except JobError Accelerator :=
  match r.enabled? .gpuCuda with
  | some cuda => (cudaTag cuda).map fun tag => .cuda tag r.hostIsGcc
  | none =>
    match r.enabled? .gpuHip with
    | some hip => .ok (.hip hip)
    | none => .ok .none

theorem imageAccelerator_eq (r : Record) :
    r.imageAccelerator = r.accelerator.map Accelerator.mark := by
  rw [imageAccelerator, accelerator]
  cases r.enabled? .gpuCuda with
  | some cuda =>
    dsimp only
    cases cudaTag cuda <;> rfl
  | none => cases r.enabled? .gpuHip <;> rfl

/-- **The parts of an image.** -/
theorem image_eq_ok_iff {r : Record} {version : ContainerVersion} {text : String} :
    r.image version = .ok text ↔
      ∃ ubuntu a, r.ubuntu = some ubuntu ∧ r.accelerator = .ok a ∧
        text = "registry.hzdr.de/crp/alpaka-group-container/" ++ "alpaka-ci-ubuntu"
          ++ ubuntu.version
          ++ (gccMark (r.hostIsGcc && r.deviceCompiler.name == "gcc") ++ a.mark)
          ++ ":" ++ version.tag := by
  simp only [image, bind_eq_ok_iff, require_eq_ok_iff, get?, imageAccelerator_eq, map_eq_ok_iff,
    Except.ok.injEq, String.append_assoc]
  constructor
  · rintro ⟨ubuntu, hu, _, ⟨a, ha, rfl⟩, rfl⟩
    exact ⟨ubuntu, a, hu, ha, rfl⟩
  · rintro ⟨ubuntu, a, hu, ha, rfl⟩
    exact ⟨ubuntu, hu, _, ⟨a, ha, rfl⟩, rfl⟩

/-- Images for one version of Ubuntu and one container version differ exactly in their marks. -/
theorem image_inj_iff {r s : Record} {version : ContainerVersion} {x y : String}
    (hubuntu : r.ubuntu.map (·.version) = s.ubuntu.map (·.version))
    (hx : r.image version = .ok x) (hy : s.image version = .ok y) :
    x = y ↔ (r.hostIsGcc && r.deviceCompiler.name == "gcc")
        = (s.hostIsGcc && s.deviceCompiler.name == "gcc") ∧ r.accelerator = s.accelerator := by
  obtain ⟨u, a, hru, hra, rfl⟩ := image_eq_ok_iff.1 hx
  obtain ⟨v, b, hsv, hsb, rfl⟩ := image_eq_ok_iff.1 hy
  have huv : u.version = v.version := by
    rw [hru, hsv] at hubuntu
    exact Option.some.inj hubuntu
  rw [huv, hra, hsb, Except.ok.injEq]
  constructor
  · intro h
    rw [String.append_left_inj, String.append_left_inj, String.append_right_inj] at h
    exact Accelerator.gccMark_append_mark_inj h
  · rintro ⟨hmark, rfl⟩
    rw [hmark]

/-- A job that runs its tests needs a machine with the accelerator of its image. -/
theorem runner_eq {r : Record} {a : Accelerator} (h : r.accelerator = .ok a) :
    r.runner = if r.isCompileOnly then .cpuOnly else a.runner := by
  rw [runner]
  split
  · rfl
  · rw [accelerator] at h
    cases hcuda : r.enabled? .gpuCuda with
    | some cuda =>
      rw [hcuda] at h
      obtain ⟨tag, -, rfl⟩ := map_eq_ok_iff.1 h
      rfl
    | none =>
      rw [hcuda] at h
      cases hhip : r.enabled? .gpuHip with
      | some hip =>
        rw [hhip] at h
        cases h
        rfl
      | none =>
        rw [hhip] at h
        cases h
        rfl

end Record

end JobMatrix
