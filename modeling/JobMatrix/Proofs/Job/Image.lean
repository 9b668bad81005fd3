import JobMatrix.Proofs.Job.ContainerVersion
import JobMatrix.Proofs.Job.Identity

/-!
# What an image refers to

An image reference is put together without anything that says where one part ends, and the version of
the HIP toolkit in it may be any text.  It can be read from its two ends.  A tag has no colon, so the
tag starts behind the last one (`image_tag_inj`), and what stands behind the version of Ubuntu starts
with a hyphen (`head?_marks`), which that version has none of.  What is left between are the marks,
and those tell the accelerator (`Accelerator.gccMark_append_mark_inj`).
-/

set_option autoImplicit false

namespace JobMatrix

/-- Texts without a delimiter end where it stands. -/
theorem append_inj_of_delimiter {d : Char} {v w x y : List Char} (hv : d ∉ v) (hw : d ∉ w)
    (hx : ∀ c ∈ x.head?, c = d) (hy : ∀ c ∈ y.head?, c = d) (h : v ++ x = w ++ y) :
    v = w ∧ x = y := by
  have hother {z : List Char} (hz : d ∉ z) : ∀ c ∈ z, (c != d) = true := by
    intro c hc
    rw [bne_iff_ne]
    rintro rfl
    exact hz hc
  have hstart {z : List Char} (hz : ∀ c ∈ z.head?, c = d) : ∀ c ∈ z.head?, (c != d) = false :=
    fun c hc => bne_eq_false_iff_eq.2 (hz c hc)
  exact append_inj_of_head? (hother hv) (hother hw) (hstart hx) (hstart hy) h

namespace ContainerVersion

theorem colon_not_mem_tag (v : ContainerVersion) : ':' ∉ v.tag.toList := by
  obtain ⟨n, -, htag, -⟩ := v.exists_numeral_tag
  have hnumeral : ':' ∉ n.text := fun h => absurd (n.isDigit_of_mem h (by decide)) (by decide)
  rw [htag, Binary64.signed, String.toList_ofList]
  cases v.value.isNegative with
  | false => exact hnumeral
  | true => exact List.not_mem_cons_of_ne_of_not_mem (by decide) hnumeral

/-- A tag starts behind the last colon. -/
theorem image_tag_inj {v w : ContainerVersion} {x y : String}
    (h : x ++ ":" ++ v.tag = y ++ ":" ++ w.tag) : x = y ∧ v = w := by
  have hcolon (u : ContainerVersion) : ':' ∉ u.tag.toList.reverse :=
    fun h => u.colon_not_mem_tag (List.mem_reverse.1 h)
  have hlist : v.tag.toList.reverse ++ ':' :: x.toList.reverse
      = w.tag.toList.reverse ++ ':' :: y.toList.reverse := by
    simpa using congrArg List.reverse (congrArg String.toList h)
  obtain ⟨htag, hrest⟩ := append_inj_of_delimiter (hcolon v) (hcolon w) (by simp) (by simp) hlist
  have htag := String.toList_inj.1 (List.reverse_injective htag)
  have hrest := List.reverse_injective (List.cons.inj hrest).2
  exact ⟨String.toList_inj.1 hrest, tag_injective htag⟩

end ContainerVersion

namespace Record

/-- The marks of an image are set off by a hyphen. -/
theorem head?_marks (gccOnly : Bool) (a : Accelerator) :
    ∀ c ∈ (gccMark gccOnly ++ a.mark).toList.head?, c = '-' := by
  cases gccOnly <;> cases a <;> simp [gccMark, Accelerator.mark]

/-- The version of Ubuntu ends where the marks start. -/
theorem ubuntu_marks_inj {u w : String} (hu : '-' ∉ u.toList) (hw : '-' ∉ w.toList) {x y : Bool}
    {a b : Accelerator}
    (h : u ++ (gccMark x ++ a.mark) = w ++ (gccMark y ++ b.mark)) : u = w ∧ x = y ∧ a = b := by
  have hlist : u.toList ++ (gccMark x ++ a.mark).toList
      = w.toList ++ (gccMark y ++ b.mark).toList := by
    rw [← String.toList_append, h, String.toList_append]
  obtain ⟨hversion, hmarks⟩ :=
    append_inj_of_delimiter hu hw (head?_marks x a) (head?_marks y b) hlist
  exact ⟨String.toList_inj.1 hversion, Accelerator.gccMark_append_mark_inj (String.toList_inj.1 hmarks)⟩

/-- **An image reference tells its container**: the version of Ubuntu, whether `gcc` is the only
compiler, the accelerator, and the container version to the last bit.  The runner of a job that runs
its tests is that of the accelerator. -/
theorem image_determines :
    (∀ (r s : Record) (v w : ContainerVersion) (image : String),
      (∀ ubuntu, r.ubuntu = some ubuntu → '-' ∉ ubuntu.version.toList) →
      (∀ ubuntu, s.ubuntu = some ubuntu → '-' ∉ ubuntu.version.toList) →
      r.image v = .ok image → s.image w = .ok image →
        r.ubuntu.map (·.version) = s.ubuntu.map (·.version) ∧
        (r.hostIsGcc && r.deviceCompiler.name == "gcc")
          = (s.hostIsGcc && s.deviceCompiler.name == "gcc") ∧
        (∃ a, r.accelerator = .ok a ∧ s.accelerator = .ok a) ∧
        v.value.toBits = w.value.toBits) ∧
    ∀ (r : Record) (v : ContainerVersion) (image : String),
      r.isCompileOnly = false → r.image v = .ok image →
        ∃ a, r.accelerator = .ok a ∧ r.runner = a.runner := by
  refine ⟨fun r s v w image hr hs hri hsi => ?_, fun r v image hruns himage => ?_⟩
  · obtain ⟨u, a, hru, hra, rfl⟩ := image_eq_ok_iff.1 hri
    obtain ⟨u', b, hsu, hsb, himage⟩ := image_eq_ok_iff.1 hsi
    obtain ⟨hname, rfl⟩ := ContainerVersion.image_tag_inj himage
    have hname : u.version
          ++ (gccMark (r.hostIsGcc && r.deviceCompiler.name == "gcc") ++ a.mark)
        = u'.version ++ (gccMark (s.hostIsGcc && s.deviceCompiler.name == "gcc") ++ b.mark) := by
      simpa only [String.append_assoc, String.append_right_inj] using hname
    obtain ⟨hubuntu, hgcc, rfl⟩ := ubuntu_marks_inj (hr u hru) (hs u' hsu) hname
    exact ⟨by rw [hru, hsu, Option.map_some, Option.map_some, hubuntu], hgcc, ⟨a, hra, hsb⟩, rfl⟩
  · obtain ⟨_, a, -, ha, -⟩ := image_eq_ok_iff.1 himage
    refine ⟨a, ha, ?_⟩
    rw [runner_eq ha, hruns, if_neg Bool.false_ne_true]

/-- Two versions of CUDA in one image. -/
theorem image_determines_cuda :
    let r := release ⟨"nvcc", "11.2"⟩ ⟨"gcc", "11"⟩ "11.2"
    let s := release ⟨"nvcc", "11.27"⟩ ⟨"gcc", "10"⟩ " 11.27"
    let image := "registry.hzdr.de/crp/alpaka-group-container/alpaka-ci-ubuntu20.04-cuda112-gcc:1.0"
    r.image .first = .ok image ∧ s.image .first = .ok image ∧
      (∃ a, r.accelerator = .ok a ∧ s.accelerator = .ok a) ∧
      ∃ a, r.accelerator = .ok a ∧ r.runner = a.runner := by
  intro r s image
  have hr : r.image .first = .ok image := by decide +kernel
  have hs : s.image .first = .ok image := by decide +kernel
  have hru : ∀ ubuntu, r.ubuntu = some ubuntu → '-' ∉ ubuntu.version.toList := by
    rintro _ ⟨⟩
    decide
  have hsu : ∀ ubuntu, s.ubuntu = some ubuntu → '-' ∉ ubuntu.version.toList := by
    rintro _ ⟨⟩
    decide
  exact ⟨hr, hs, (image_determines.1 r s .first .first image hru hsu hr hs).2.2.1,
    image_determines.2 r .first image rfl hr⟩

end Record

end JobMatrix
