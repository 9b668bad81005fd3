import JobMatrix.Job.Naming
import JobMatrix.Proofs.Job.Record

/-!
# What the name of a job tells

Only one job runs under each name, so what a name leaves out is lost.  A name puts its parts next to
each other without saying where one ends, and leaves out versions that are not there.  It can still
be read: its underscores set off segments, no version has one (`Record.Nameable`), and each segment
starts with a mark that starts no other (`markedSegments_inj`).  The segment of the compilers is
read from the left, where the compiler is followed by a number (`Parameter.text_append_inj`).

`jobName_decodes` puts this together: records of one name agree on all that the name shows.
-/

set_option autoImplicit false

namespace JobMatrix

/-! ## Texts that can be told apart -/

/-- Digits and dots. -/
def IsNumeric (s : String) : Prop := ∀ c ∈ s.toList, (c.isDigit || c == '.') = true

instance (s : String) : Decidable (IsNumeric s) := List.decidableBAll _ s.toList

theorem IsNumeric.underscore_not_mem {s : String} (h : IsNumeric s) : '_' ∉ s.toList :=
  fun hmem => absurd (h '_' hmem) (by decide)

/-- Neither text is the start of the other. -/
def Incomparable (a b : String) : Prop := ¬a.toList <+: b.toList ∧ ¬b.toList <+: a.toList

instance (a b : String) : Decidable (Incomparable a b) :=
  inferInstanceAs (Decidable (_ ∧ _))

/-- Texts of characters with a property end where a character without it starts. -/
theorem append_inj_of_head? {p : Char → Bool} {v w x y : List Char} (hv : ∀ c ∈ v, p c = true)
    (hw : ∀ c ∈ w, p c = true) (hx : ∀ c ∈ x.head?, p c = false)
    (hy : ∀ c ∈ y.head?, p c = false) (h : v ++ x = w ++ y) : v = w ∧ x = y := by
  have hnone {z : List Char} (hz : ∀ c ∈ z.head?, p c = false) : z.takeWhile p = [] := by
    cases z with
    | nil => rfl
    | cons c z => exact List.takeWhile_cons_of_neg (by simp [hz c rfl])
  have hstart := congrArg (List.takeWhile p) h
  rw [List.takeWhile_append_of_pos hv, List.takeWhile_append_of_pos hw, hnone hx, hnone hy,
    List.append_nil, List.append_nil] at hstart
  rw [hstart] at h
  exact ⟨hstart, List.append_cancel_left h⟩

/-- A number ends where something else starts. -/
theorem IsNumeric.append_inj {v w : String} (hv : IsNumeric v) (hw : IsNumeric w)
    {x y : List Char} (hx : ∀ c ∈ x.head?, (c.isDigit || c == '.') = false)
    (hy : ∀ c ∈ y.head?, (c.isDigit || c == '.') = false)
    (h : v.toList ++ x = w.toList ++ y) : v = w ∧ x = y :=
  (append_inj_of_head? hv hw hx hy h).imp_left String.toList_inj.1

/-! ## Marked segments -/

/-- The versions that are there, each behind its mark. -/
def markedSegments (marks : List (String × Option String)) : List (List Char) :=
  marks.flatMap fun (mark, version) => (version.map fun v => mark.toList ++ v.toList).toList

theorem markedSegments_cons (mark : String) (version : Option String)
    (marks : List (String × Option String)) :
    markedSegments ((mark, version) :: marks)
      = (version.map fun v => mark.toList ++ v.toList).toList ++ markedSegments marks := rfl

theorem markedSegments_append (ms ns : List (String × Option String)) :
    markedSegments (ms ++ ns) = markedSegments ms ++ markedSegments ns := List.flatMap_append

theorem mem_markedSegments {marks : List (String × Option String)} {s : List Char} :
    s ∈ markedSegments marks ↔ ∃ mark v, (mark, some v) ∈ marks ∧ mark.toList ++ v.toList = s := by
  simp only [markedSegments, List.mem_flatMap, Prod.exists, Option.mem_toList,
    Option.map_eq_some_iff]
  constructor
  · rintro ⟨mark, _, hmem, v, rfl, rfl⟩
    exact ⟨mark, v, hmem, rfl⟩
  · rintro ⟨mark, v, hmem, rfl⟩
    exact ⟨mark, _, hmem, v, rfl, rfl⟩

/-- **Segments tell the versions** when no mark is the start of another. -/
theorem markedSegments_inj {ms ns : List (String × Option String)}
    (hmarks : ms.map Prod.fst = ns.map Prod.fst) (hms : (ms.map Prod.fst).Pairwise Incomparable)
    (h : markedSegments ms = markedSegments ns) : ms = ns := by
  induction ms generalizing ns with
  | nil => exact (List.map_eq_nil_iff.1 hmarks.symm).symm
  | cons m ms ih =>
    obtain ⟨mark, v⟩ := m
    obtain _ | ⟨⟨mark', w⟩, ns⟩ := ns
    · cases hmarks
    obtain ⟨hmark, htail⟩ := List.cons.inj hmarks
    cases hmark
    obtain ⟨hfresh, hrest⟩ := List.pairwise_cons.1 hms
    -- a segment with this mark is not among those of the other marks
    have hother {ks : List (String × Option String)} (hks : ks.map Prod.fst = ms.map Prod.fst)
        (u : String) : mark.toList ++ u.toList ∉ markedSegments ks := by
      intro hmem
      obtain ⟨other, u', hmem, heq⟩ := mem_markedSegments.1 hmem
      have hother := hfresh other (hks ▸ List.mem_map_of_mem hmem)
      have hmark : mark.toList <+: mark.toList ++ u.toList := List.prefix_append _ _
      rcases List.prefix_or_prefix_of_prefix hmark (heq ▸ List.prefix_append _ _) with hp | hp
      · exact hother.1 hp
      · exact hother.2 hp
    rw [markedSegments_cons, markedSegments_cons] at h
    cases v with
    | none =>
      cases w with
      | none => rw [ih htail hrest h]
      | some w =>
        change markedSegments ms = (mark.toList ++ w.toList) :: markedSegments ns at h
        exact absurd (h ▸ List.mem_cons_self) (hother rfl w)
    | some v =>
      cases w with
      | none =>
        change (mark.toList ++ v.toList) :: markedSegments ms = markedSegments ns at h
        exact absurd (h ▸ List.mem_cons_self) (hother htail.symm v)
      | some w =>
        obtain ⟨hvw, h⟩ := List.cons.inj h
        rw [String.toList_inj.1 (List.append_cancel_left hvw), ih htail hrest h]

/-! ## Compilers -/

namespace Parameter

/-- One of the compilers, with a version of digits and dots. -/
structure IsCompiler (p : Parameter) : Prop where
  name : p.name ∈ ["gcc", "clang", "nvcc", "clang-cuda", "hipcc"]
  version : IsNumeric p.version

instance (p : Parameter) : Decidable p.IsCompiler :=
  decidable_of_iff (_ ∧ _) ⟨fun h => ⟨h.1, h.2⟩, fun h => ⟨h.name, h.version⟩⟩

/-- What may stand behind a compiler in a name: nothing, or something set off by a hyphen.  A
hyphen behind `clang` would be part of `clang-cuda`. -/
def Precedes (p : Parameter) (x : List Char) : Prop :=
  x = [] ∨ p.name ≠ "clang" ∧ x.head? = some '-'

theorem Precedes.head {p : Parameter} {x : List Char} (h : p.Precedes x) :
    ∀ c ∈ x.head?, (c.isDigit || c == '.') = false := by
  intro c hc
  rcases h with rfl | ⟨-, hx⟩
  · cases hc
  · rw [hx] at hc
    cases hc
    rfl

/-- `clang` with what may stand behind it is not `clang-cuda`. -/
theorem not_prefix_of_clang {p : Parameter} {x : List Char} (hp : p.IsCompiler) (hx : p.Precedes x)
    (hclang : p.name = "clang") : ¬"clang-cuda".toList <+: p.text.toList ++ x := by
  obtain rfl : x = [] := hx.resolve_right fun h => h.1 hclang
  rintro ⟨t, ht⟩
  rw [text, hclang, List.append_nil, String.toList_append,
    show "clang-cuda".toList = "clang".toList ++ "-cuda".toList from rfl, List.append_assoc] at ht
  have hhyphen : '-' ∈ p.version.toList := by
    rw [← List.append_cancel_left ht]
    exact List.mem_append_left _ (by decide)
  exact absurd (hp.version '-' hhyphen) (by decide)

/-- **A compiler ends where it should.** -/
theorem text_append_inj {p q : Parameter} (hp : p.IsCompiler) (hq : q.IsCompiler)
    {x y : List Char} (hx : p.Precedes x) (hy : q.Precedes y)
    (h : p.text.toList ++ x = q.text.toList ++ y) : p = q ∧ x = y := by
  have hstart : ∀ a ∈ ["gcc", "clang", "nvcc", "clang-cuda", "hipcc"],
      ∀ b ∈ ["gcc", "clang", "nvcc", "clang-cuda", "hipcc"],
        a.toList <+: b.toList → a = b ∨ a = "clang" ∧ b = "clang-cuda" := by decide
  have hname_start (p : Parameter) (x : List Char) : p.name.toList <+: p.text.toList ++ x := by
    rw [text, String.toList_append, List.append_assoc]
    exact List.prefix_append _ _
  have hname : p.name = q.name := by
    rcases List.prefix_or_prefix_of_prefix (hname_start p x) (h ▸ hname_start q y) with hpq | hqp
    · refine (hstart _ hp.name _ hq.name hpq).resolve_right fun ⟨hclang, hcuda⟩ => ?_
      exact not_prefix_of_clang hp hx hclang (h ▸ hcuda ▸ hname_start q y)
    · refine ((hstart _ hq.name _ hp.name hqp).resolve_right fun ⟨hclang, hcuda⟩ => ?_).symm
      exact not_prefix_of_clang hq hy hclang (h ▸ hcuda ▸ hname_start p x)
  rw [text, text, String.toList_append, String.toList_append, hname, List.append_assoc,
    List.append_assoc] at h
  obtain ⟨hversion, hxy⟩ := hp.version.append_inj hq.version hx.head hy.head
    (List.append_cancel_left h)
  obtain ⟨_, _⟩ := p
  obtain ⟨_, _⟩ := q
  cases hname
  cases hversion
  exact ⟨rfl, hxy⟩

end Parameter

/-! ## The name of a record -/

namespace Record

/-- What a record must be like for its name to tell its parameters: compilers are known, the
software is named as its category, and no version has an underscore. -/
structure Nameable (r : Record) : Prop where
  device : r.deviceCompiler.IsCompiler
  host : r.deviceCompiler.name = "nvcc" → r.hostCompiler.IsCompiler
  cuda : r.deviceCompiler.name = "clang-cuda" →
    ∃ p, r.backends .gpuCuda = some p ∧ '_' ∉ p.version.toList
  named : ∀ c ∈ [Category.cmake, .boost, .ubuntu], ∀ p, r.get? c = some p → p.name = c.key
  plain : ∀ c ∈ [Category.cmake, .boost, .ubuntu, .cxxStandard, .buildType],
    ∀ p, r.get? c = some p → '_' ∉ p.version.toList

/-- The mark of a category in the suffix of a name. -/
def suffixMark : Category → String
  | .cxxStandard => "cxx"
  | c => c.key

/-- What a name says behind the compiler, up to the build type. -/
def nameMarks (r : Record) : List (String × Option String) :=
  [("compile", if r.isCompileOnly then some "" else none),
    ("only", if r.isCompileOnly then some "" else none)]
  ++ [Category.cmake, .boost, .ubuntu, .cxxStandard].map fun c =>
    (suffixMark c, (r.get? c).map (·.version))

/-- The parts of a name between underscores, behind the compiler. -/
def nameSegments (r : Record) : List (List Char) :=
  markedSegments r.nameMarks ++ [r.buildType.version.toList]

theorem intercalate_cons (x : Char) (s : List Char) (ss : List (List Char)) :
    [x].intercalate (s :: ss) = s ++ ss.flatMap (x :: ·) := by
  induction ss generalizing s with
  | nil => simp
  | cons t ss ih => rw [List.intercalate_cons_cons, ih, List.flatMap_cons]; simp

theorem Nameable.toList_suffixPart {r : Record} (hr : r.Nameable) {c : Category}
    (hc : c ∈ [Category.cmake, .boost, .ubuntu, .cxxStandard]) {p : Parameter}
    (hp : r.get? c = some p) :
    (suffixPart c p).toList = '_' :: ((suffixMark c).toList ++ p.version.toList) := by
  have hnamed := hr.named c
  simp only [List.mem_cons, List.not_mem_nil, or_false] at hc hnamed
  rcases hc with rfl | rfl | rfl | rfl
  case inr.inr.inr => simp [suffixPart, suffixMark]
  all_goals simp [suffixPart, suffixMark, Parameter.text, hnamed (by simp) p hp]

/-- The suffix has each version that is there behind an underscore and its mark. -/
theorem Nameable.toList_nameSuffix {r : Record} (hr : r.Nameable) :
    r.nameSuffix.toList
      = (markedSegments ([Category.cmake, .boost, .ubuntu, .cxxStandard].map fun c =>
          (suffixMark c, (r.get? c).map (·.version)))).flatMap ('_' :: ·)
        ++ '_' :: r.buildType.version.toList := by
  have hparts {cs : List Category} (hcs : cs ⊆ [Category.cmake, .boost, .ubuntu, .cxxStandard]) :
      (cs.map fun c => ((r.get? c).map (suffixPart c)).getD "").flatMap String.toList
        = (markedSegments (cs.map fun c =>
            (suffixMark c, (r.get? c).map (·.version)))).flatMap ('_' :: ·) := by
    induction cs with
    | nil => rfl
    | cons c cs ih =>
      obtain ⟨hc, hcs⟩ := List.cons_subset.1 hcs
      rw [List.map_cons, List.map_cons, List.flatMap_cons, markedSegments_cons,
        List.flatMap_append, ih hcs]
      cases hp : r.get? c with
      | none => rfl
      | some p => simp [hr.toList_suffixPart hc hp]
  rw [nameSuffix, String.toList_join,
    show suffixCategories = [.cmake, .boost, .ubuntu, .cxxStandard] ++ [.buildType] from rfl,
    List.map_append, List.flatMap_append, hparts (List.Subset.refl _)]
  simp [get?, suffixPart]

/-- **The name is made of segments** between underscores: `linux`, the compiler, and those of the
parameters. -/
theorem Nameable.toList_name {r : Record} (hr : r.Nameable) {name : String}
    (h : r.jobName = .ok name) : ∃ dependency, r.nameDependency = .ok dependency ∧
      name.toList = ['_'].intercalate
        ("linux".toList :: (r.deviceCompiler.text.toList ++ dependency.toList)
          :: r.nameSegments) := by
  obtain ⟨dependency, hdependency, rfl⟩ := map_eq_ok_iff.1 h
  refine ⟨dependency, hdependency, ?_⟩
  have hcompile : (if r.isCompileOnly then "_compile_only" else "").toList
      = (markedSegments [("compile", if r.isCompileOnly then some "" else none),
          ("only", if r.isCompileOnly then some "" else none)]).flatMap ('_' :: ·) := by
    split <;> rfl
  rw [intercalate_cons, List.flatMap_cons, nameSegments, nameMarks, markedSegments_append]
  simp only [String.toList_append, hr.toList_nameSuffix, hcompile, List.flatMap_append,
    List.flatMap_cons, List.flatMap_nil, List.append_assoc, List.cons_append, List.append_nil]
  rfl

/-! ## No segment has an underscore -/

theorem nameMarks_fst (r : Record) :
    r.nameMarks.map Prod.fst = ["compile", "only", "cmake", "boost", "ubuntu", "cxx"] := rfl

theorem Nameable.underscore_not_mem_nameSegments {r : Record} (hr : r.Nameable) :
    ∀ s ∈ r.nameSegments, '_' ∉ s := by
  intro s hs
  rcases List.mem_append.1 hs with hs | hs
  · obtain ⟨mark, v, hmem, rfl⟩ := mem_markedSegments.1 hs
    have hmark : '_' ∉ mark.toList := by
      have hall : ∀ m ∈ ["compile", "only", "cmake", "boost", "ubuntu", "cxx"],
          '_' ∉ m.toList := by decide
      exact hall mark (nameMarks_fst r ▸ List.mem_map_of_mem hmem)
    have hversion : '_' ∉ v.toList := by
      rcases List.mem_append.1 hmem with hmem | hmem
      · simp at hmem
        rcases hmem with h | h <;> simp [h]
      · obtain ⟨c, hc, heq⟩ := List.mem_map.1 hmem
        obtain ⟨p, hp, rfl⟩ := Option.map_eq_some_iff.1 (Prod.ext_iff.1 heq).2
        have hsuffix : c ∈ suffixCategories := List.mem_append_left [Category.buildType] hc
        exact hr.plain c hsuffix p hp
    rw [List.mem_append]
    exact not_or.2 ⟨hmark, hversion⟩
  · rw [List.mem_singleton.1 hs]
    exact hr.plain .buildType (by decide) _ rfl

end Record

theorem Parameter.IsCompiler.underscore_not_mem_text {p : Parameter} (hp : p.IsCompiler) :
    '_' ∉ p.text.toList := by
  have hall : ∀ n ∈ ["gcc", "clang", "nvcc", "clang-cuda", "hipcc"], '_' ∉ n.toList := by decide
  rw [text, String.toList_append, List.mem_append]
  exact not_or.2 ⟨hall _ hp.name, hp.version.underscore_not_mem⟩

namespace Record

/-! ## The dependency of a compiler -/

theorem nameDependency_nvcc {r : Record} (h : r.deviceCompiler.name = "nvcc") :
    r.nameDependency = .ok ("-" ++ r.hostCompiler.text) := by
  rw [nameDependency, if_pos h]

theorem nameDependency_clangCuda {r : Record} (h : r.deviceCompiler.name = "clang-cuda")
    {d : String} : r.nameDependency = .ok d ↔
      ∃ p, r.backends .gpuCuda = some p ∧ "-cuda" ++ p.version = d := by
  have hnvcc : r.deviceCompiler.name ≠ "nvcc" := by rw [h]; decide
  rw [nameDependency, if_neg hnvcc, if_pos h, map_eq_ok_iff]
  simp only [require_eq_ok_iff]
  rfl

theorem nameDependency_other {r : Record} (hnvcc : r.deviceCompiler.name ≠ "nvcc")
    (hcuda : r.deviceCompiler.name ≠ "clang-cuda") : r.nameDependency = .ok "" := by
  rw [nameDependency, if_neg hnvcc, if_neg hcuda]

/-- What stands behind the compiler has no underscore, and starts with a hyphen. -/
theorem Nameable.dependency {r : Record} (hr : r.Nameable) {d : String}
    (hd : r.nameDependency = .ok d) : '_' ∉ d.toList ∧ r.deviceCompiler.Precedes d.toList := by
  by_cases hnvcc : r.deviceCompiler.name = "nvcc"
  · rw [nameDependency_nvcc hnvcc] at hd
    obtain rfl := Except.ok.inj hd
    refine ⟨?_, .inr ⟨by rw [hnvcc]; decide, by simp⟩⟩
    simpa using (hr.host hnvcc).underscore_not_mem_text
  by_cases hcuda : r.deviceCompiler.name = "clang-cuda"
  · obtain ⟨p, hp, rfl⟩ := (nameDependency_clangCuda hcuda).1 hd
    obtain ⟨q, hq, hplain⟩ := hr.cuda hcuda
    obtain rfl := Option.some.inj (hp.symm.trans hq)
    refine ⟨?_, .inr ⟨by rw [hcuda]; decide, by simp⟩⟩
    simpa using hplain
  · rw [nameDependency_other hnvcc hcuda] at hd
    obtain rfl := Except.ok.inj hd
    exact ⟨by decide, .inl rfl⟩

/-! ## The name decodes -/

/-- Records of one name have the same compiler, with the same dependency, and the same segments
behind it. -/
theorem Nameable.name_inj {r s : Record} (hr : r.Nameable) (hs : s.Nameable) {name : String}
    (hrn : r.jobName = .ok name) (hsn : s.jobName = .ok name) :
    r.deviceCompiler = s.deviceCompiler ∧ r.nameDependency = s.nameDependency ∧
      r.nameMarks = s.nameMarks ∧ r.buildType.version = s.buildType.version := by
  obtain ⟨d, hd, hname⟩ := hr.toList_name hrn
  obtain ⟨e, he, hname'⟩ := hs.toList_name hsn
  have hplain {r : Record} (hr : r.Nameable) {d : String} (hd : r.nameDependency = .ok d) :
      ∀ x ∈ "linux".toList :: (r.deviceCompiler.text.toList ++ d.toList) :: r.nameSegments,
        '_' ∉ x := by
    rw [List.forall_mem_cons, List.forall_mem_cons, List.mem_append]
    exact ⟨by decide, not_or.2 ⟨hr.device.underscore_not_mem_text, (hr.dependency hd).1⟩,
      hr.underscore_not_mem_nameSegments⟩
  -- the underscores of a name are those between its segments
  have hsegments := congrArg (List.splitOn '_') (hname.symm.trans hname')
  rw [List.splitOn_intercalate '_' (hplain hr hd) (List.cons_ne_nil _ _),
    List.splitOn_intercalate '_' (hplain hs he) (List.cons_ne_nil _ _)] at hsegments
  obtain ⟨-, hsegments⟩ := List.cons.inj hsegments
  obtain ⟨hcompiler, hsegments⟩ := List.cons.inj hsegments
  obtain ⟨hdevice, hdependency⟩ := Parameter.text_append_inj hr.device hs.device
    (hr.dependency hd).2 (hs.dependency he).2 hcompiler
  obtain ⟨hmarks, hbuild⟩ := List.append_inj' hsegments rfl
  refine ⟨hdevice, ?_, markedSegments_inj rfl ?_ hmarks, ?_⟩
  · rw [hd, he, String.toList_inj.1 hdependency]
  · rw [nameMarks_fst]
    decide
  · exact String.toList_inj.1 (List.cons.inj hbuild).1

theorem nameMarks_inj {r s : Record} (h : r.nameMarks = s.nameMarks) :
    r.isCompileOnly = s.isCompileOnly ∧
      ∀ c ∈ [Category.cmake, .boost, .ubuntu, .cxxStandard],
        (r.get? c).map (·.version) = (s.get? c).map (·.version) := by
  simp only [nameMarks, List.cons_append, List.nil_append, List.map_cons, List.map_nil,
    List.cons.injEq, Prod.mk.injEq, true_and, and_true] at h
  obtain ⟨hcompile, -, hcmake, hboost, hubuntu, hcxx⟩ := h
  refine ⟨?_, ?_⟩
  · cases hr : r.isCompileOnly <;> cases hs : s.isCompileOnly <;> simp [hr, hs] at hcompile ⊢
  · simp only [List.forall_mem_cons, List.not_mem_nil, false_implies, implies_true, and_true]
    exact ⟨hcmake, hboost, hubuntu, hcxx⟩

/-- **The job name decodes.**  Records of one name have the same device compiler, and the same host
compiler or version of CUDA if the name shows it; both or neither only compile; and they have the
same versions in the suffix. -/
theorem jobName_decodes {r s : Record} (hr : r.Nameable) (hs : s.Nameable) {name : String}
    (hrn : r.jobName = .ok name) (hsn : s.jobName = .ok name) :
    r.deviceCompiler = s.deviceCompiler ∧ r.isCompileOnly = s.isCompileOnly ∧
      (r.deviceCompiler.name = "nvcc" → r.hostCompiler = s.hostCompiler) ∧
      (r.deviceCompiler.name = "clang-cuda" →
        (r.backends .gpuCuda).map (·.version) = (s.backends .gpuCuda).map (·.version)) ∧
      (∀ c ∈ [Category.cmake, .boost, .ubuntu, .cxxStandard],
        (r.get? c).map (·.version) = (s.get? c).map (·.version)) ∧
      r.buildType.version = s.buildType.version := by
  obtain ⟨hdevice, hdependency, hmarks, hbuild⟩ := hr.name_inj hs hrn hsn
  obtain ⟨hcompile, hversions⟩ := nameMarks_inj hmarks
  refine ⟨hdevice, hcompile, fun hnvcc => ?_, fun hcuda => ?_, hversions, hbuild⟩
  · rw [nameDependency_nvcc hnvcc, nameDependency_nvcc (hdevice ▸ hnvcc), Except.ok.injEq,
      String.append_right_inj] at hdependency
    refine (Parameter.text_append_inj (hr.host hnvcc) (hs.host (hdevice ▸ hnvcc)) (.inl rfl)
      (.inl rfl) ?_).1
    rw [hdependency]
  · obtain ⟨p, hp, -⟩ := hr.cuda hcuda
    have hd := (nameDependency_clangCuda hcuda).2 ⟨p, hp, rfl⟩
    rw [hdependency, nameDependency_clangCuda (hdevice ▸ hcuda)] at hd
    obtain ⟨q, hq, heq⟩ := hd
    rw [hp, hq, Option.map_some, Option.map_some, (String.append_right_inj _).1 heq]

/-- A release build with the given compilers and version of CUDA. -/
def release (device host : Parameter) (cuda : String) : Record where
  hostCompiler := host
  deviceCompiler := device
  buildType := ⟨"build_type", "Release"⟩
  testType := ⟨"test_type", "runtime"⟩
  cmake := some ⟨"cmake", "3.22"⟩
  boost := some ⟨"boost", "1.79"⟩
  ubuntu := some ⟨"ubuntu", "20.04"⟩
  backends b := if b = .gpuCuda then some ⟨b.flag, cuda⟩ else none

theorem nameable_release {device host : Parameter} {cuda : String} (hdevice : device.IsCompiler)
    (hhost : host.IsCompiler) (hcuda : '_' ∉ cuda.toList) :
    (release device host cuda).Nameable where
  device := hdevice
  host _ := hhost
  cuda _ := ⟨_, rfl, hcuda⟩
  named c hc p hp := by
    simp only [List.mem_cons, List.not_mem_nil, or_false] at hc
    rcases hc with rfl | rfl | rfl <;> cases hp <;> rfl
  plain c hc p hp := by
    simp only [List.mem_cons, List.not_mem_nil, or_false] at hc
    rcases hc with rfl | rfl | rfl | rfl | rfl <;> cases hp <;> simp [release]

/-- The host compiler of `clang-cuda` is not in the name, and the rest agrees. -/
theorem jobName_decodes_release :
    let r := release ⟨"clang-cuda", "14"⟩ ⟨"gcc", "11"⟩ "11.5"
    let s := release ⟨"clang-cuda", "14"⟩ ⟨"clang", "14"⟩ "11.5"
    ∃ name, r.jobName = .ok name ∧ s.jobName = .ok name ∧
      r.hostCompiler ≠ s.hostCompiler ∧ r.deviceCompiler = s.deviceCompiler ∧
      r.isCompileOnly = s.isCompileOnly ∧
      (r.backends .gpuCuda).map (·.version) = (s.backends .gpuCuda).map (·.version) ∧
      (∀ c ∈ [Category.cmake, .boost, .ubuntu, .cxxStandard],
        (r.get? c).map (·.version) = (s.get? c).map (·.version)) ∧
      r.buildType.version = s.buildType.version := by
  intro r s
  have hr : r.Nameable := nameable_release (by decide) (by decide) (by decide)
  have hs : s.Nameable := nameable_release (by decide) (by decide) (by decide)
  have hrn : r.jobName
      = .ok "linux_clang-cuda14-cuda11.5_cmake3.22_boost1.79_ubuntu20.04_Release" := by decide
  have hsn : s.jobName = r.jobName := by decide
  obtain ⟨hdevice, hcompile, -, hcuda, hversions, hbuild⟩ :=
    jobName_decodes hr hs hrn (hsn.trans hrn)
  exact ⟨_, hrn, hsn.trans hrn, by decide, hdevice, hcompile, hcuda rfl, hversions, hbuild⟩

end Record

end JobMatrix
