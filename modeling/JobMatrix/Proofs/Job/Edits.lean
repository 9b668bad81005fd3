import JobMatrix.Proofs.Job.Record

/-!
# Records step by step

A record can be made from a list of parameters (`Record.ofParameters`), or from another record by
changes.  An `Edit` is one change: a category is bound, or one that a record can do without is
removed.  `Record.edits` is a run of them.

* `get?_edit` is what a change does to the view of a record, and `get?_edits_of_ne` and
  `get?_edits_last` are what a run does: the last change of a category counts, and those of other
  categories do not matter.
* `lookup_parameters` and `pairwise_compare_parameters` are about the list of the parameters of a
  record, from which the record can be made again.
* `ways_to_build_agree` has all ways to come to a record together.
-/

set_option autoImplicit false

namespace JobMatrix

/-- A change to a record. -/
inductive Edit
  | bind (c : Category) (p : Parameter)
  | remove (c : Category) (optional : c ∉ Category.required)

namespace Edit

/-- The category that is changed. -/
def category : Edit → Category
  | bind c _ => c
  | remove c _ => c

/-- What the category is bound to after the change. -/
def value : Edit → Option Parameter
  | bind _ p => some p
  | remove _ _ => none

end Edit

namespace Record

/-! ## Changes -/

/-- A record after a change. -/
def edit (r : Record) : Edit → Record
  | .bind c p => r.set c p
  | .remove c _ => r.erase c

/-- A record after changes, one after the other. -/
def edits (r : Record) (es : List Edit) : Record := es.foldl edit r

theorem get?_erase (r : Record) {c : Category} (hc : c ∉ Category.required) (d : Category) :
    (r.erase c).get? d = if d = c then none else r.get? d := by
  -- a category that is required has no case, and a backend is removed from the map of backends
  cases c with
  | hostCompiler | deviceCompiler | buildType | testType => exact absurd (by decide) hc
  | backend b =>
    cases d with
    | backend d => simp only [erase, get?, Category.backend.injEq]
    | _ => rfl
  | _ => cases d <;> rfl

/-- **A change** binds its category to its value, and keeps all others. -/
theorem get?_edit (r : Record) (e : Edit) (d : Category) :
    (r.edit e).get? d = if d = e.category then e.value else r.get? d := by
  cases e with
  | bind c p => exact get?_set r c d p
  | remove c hc => exact get?_erase r hc d

theorem get?_edit_of_ne (r : Record) {e : Edit} {d : Category} (h : d ≠ e.category) :
    (r.edit e).get? d = r.get? d := by
  rw [get?_edit, if_neg h]

/-- Changes of other categories do not matter. -/
theorem get?_edits_of_ne {es : List Edit} {d : Category} (h : ∀ e ∈ es, e.category ≠ d) :
    ∀ r : Record, (r.edits es).get? d = r.get? d := by
  induction es with
  | nil => exact fun _ => rfl
  | cons e es ih =>
    intro r
    obtain ⟨he, hes⟩ := List.forall_mem_cons.1 h
    change ((r.edit e).edits es).get? d = _
    rw [ih hes, get?_edit_of_ne r he.symm]

/-- The last change of a category counts. -/
theorem get?_edits_last (r : Record) (before : List Edit) (e : Edit) {after : List Edit}
    (h : ∀ e' ∈ after, e'.category ≠ e.category) :
    (r.edits (before ++ e :: after)).get? e.category = e.value := by
  have hsplit : r.edits (before ++ e :: after) = ((r.edits before).edit e).edits after :=
    List.foldl_append
  rw [hsplit, get?_edits_of_ne h, get?_edit, if_pos rfl]

/-! ## Lists of parameters -/

/-- The last of the parameters of a category is found. -/
theorem lookup_reverse_eq_some_iff {ps : List (Category × Parameter)} {c : Category}
    {p : Parameter} : ps.reverse.lookup c = some p ↔
      ∃ before after, ps = before ++ (c, p) :: after ∧ ∀ q ∈ after, q.1 ≠ c := by
  rw [List.lookup_eq_some_iff]
  constructor
  · rintro ⟨after, before, hreverse, hafter⟩
    refine ⟨before.reverse, after.reverse, ?_, fun q hq => ?_⟩
    · rw [← List.reverse_reverse ps, hreverse]
      simp
    · exact (bne_iff_ne.1 (hafter q (List.mem_reverse.1 hq))).symm
  · rintro ⟨before, after, rfl, hafter⟩
    refine ⟨after.reverse, before.reverse, by simp, fun q hq => ?_⟩
    exact bne_iff_ne.2 (hafter q (List.mem_reverse.1 hq)).symm

/-- A list makes a record if it has all that a record needs. -/
theorem exists_ofParameters_iff {ps : List (Category × Parameter)} :
    (∃ r, ofParameters ps = .ok r) ↔ ∀ c ∈ Category.required, ∃ p, (c, p) ∈ ps := by
  rw [← failureOf?_eq_none_iff, failureOf?_ofParameters, Option.map_eq_none_iff,
    List.find?_eq_none]
  refine forall₂_congr fun c _ => ?_
  rw [Option.isNone_iff_eq_none, List.lookup_eq_none_iff]
  simp

/-- What a record is changed from does not matter if the list makes a record by itself. -/
theorem foldl_set_of_ofParameters {ps : List (Category × Parameter)} {r : Record}
    (h : ofParameters ps = .ok r) (hostCompiler deviceCompiler buildType testType : Parameter) :
    ps.foldl (fun r (c, p) => r.set c p) { hostCompiler, deviceCompiler, buildType, testType }
      = r := by
  refine ext_get? fun c => ?_
  rw [get?_foldl_set, ← ofParameters_eq_ok_iff.1 h c]
  cases c with
  | hostCompiler | deviceCompiler | buildType | testType => rfl
  | _ => exact Option.or_none

/-! ## The list of the parameters of a record -/

/-- The parameters are listed in the order of their categories. -/
theorem pairwise_compare_parameters (r : Record) :
    r.parameters.Pairwise fun a b => compare a.1 b.1 = .lt := by
  have hall : Category.all.Pairwise fun c d => compare c d = .lt := by decide
  exact pairwise_parameters_of hall r

theorem lookup_parameters (r : Record) (c : Category) :
    r.parameters.reverse.lookup c = r.get? c := by
  have hreverse : r.parameters.reverse.Pairwise fun a b => a.1 ≠ b.1 :=
    List.pairwise_reverse.2 ((pairwise_parameters r).imp Ne.symm)
  ext p
  rw [Bindings.lookup_eq_some_iff_mem hreverse, List.mem_reverse, mem_parameters_iff]

theorem ofParameters_parameters (r : Record) : ofParameters r.parameters = .ok r :=
  ofParameters_eq_ok_iff.2 fun c => (lookup_parameters r c).symm

/-! ## All ways together -/

/-- `s` is what the changes `es` make of the record `r`. -/
structure Results (r : Record) (es : List Edit) (s : Record) : Prop where
  /-- The last change of a category counts. -/
  last : ∀ before e after, es = before ++ e :: after →
    (∀ e' ∈ after, e'.category ≠ e.category) → s.get? e.category = e.value
  /-- A category without a change is as it was. -/
  unchanged : ∀ c, (∀ e ∈ es, e.category ≠ c) → s.get? c = r.get? c
  /-- One more change keeps all other categories. -/
  independent : ∀ (e : Edit) (c : Category), c ≠ e.category → (s.edit e).get? c = s.get? c
  /-- All parameters are listed, and nothing else. -/
  listed : ∀ c p, (c, p) ∈ s.parameters ↔ s.get? c = some p
  /-- No category is listed twice. -/
  once : (s.parameters.map Prod.fst).Nodup
  /-- The list increases. -/
  increasing : s.parameters.Pairwise fun a b => compare a.1 b.1 = .lt
  /-- The list makes the record again. -/
  remade : ofParameters s.parameters = .ok s

theorem results_edits (r : Record) (es : List Edit) : r.Results es (r.edits es) where
  last before e after hes hafter := by
    rw [hes, get?_edits_last r before e hafter]
  unchanged c hc := get?_edits_of_ne hc r
  independent e c hc := get?_edit_of_ne (r.edits es) hc
  listed c p := mem_parameters_iff
  once := List.pairwise_map.2 (pairwise_parameters _)
  increasing := pairwise_compare_parameters _
  remade := ofParameters_parameters _

/-- **All ways to come to a record agree.**  A list of parameters makes a record if it has the four
categories that every record has; then any record can be turned into that one by binding the same
parameters, and each category has its last parameter in the list.  A record that is changed step by
step has what the last changes leave, in the list of its parameters too. -/
theorem ways_to_build_agree (ps : List (Category × Parameter)) (r : Record) (es : List Edit) :
    ((∃ s, ofParameters ps = .ok s) ↔
        ∀ c ∈ [Category.hostCompiler, .deviceCompiler, .buildType, .testType],
          ∃ p, (c, p) ∈ ps) ∧
      (∀ s, ofParameters ps = .ok s →
        (∀ hostCompiler deviceCompiler buildType testType : Parameter,
          ps.foldl (fun r (c, p) => r.set c p)
            { hostCompiler, deviceCompiler, buildType, testType } = s) ∧
        ∀ c p, s.get? c = some p ↔
          ∃ before after, ps = before ++ (c, p) :: after ∧ ∀ q ∈ after, q.1 ≠ c) ∧
      r.Results es (r.edits es) := by
  refine ⟨exists_ofParameters_iff, fun s hs => ⟨foldl_set_of_ofParameters hs, fun c p => ?_⟩,
    results_edits r es⟩
  rw [ofParameters_eq_ok_iff.1 hs c, lookup_reverse_eq_some_iff]

/-- The second version of CMake counts until it is removed, and then there is none. -/
theorem ways_to_build_agree_cmake :
    let ps : List (Category × Parameter) := [(.cmake, ⟨"cmake", "3.18"⟩),
      (.hostCompiler, ⟨"gcc", "11"⟩), (.deviceCompiler, ⟨"gcc", "11"⟩),
      (.testType, ⟨"test_type", "runtime"⟩), (.buildType, ⟨"build_type", "Release"⟩),
      (.cmake, ⟨"cmake", "3.22"⟩)]
    let es : List Edit := [.bind .boost ⟨"boost", "1.74"⟩, .remove .cmake (by decide),
      .bind .boost ⟨"boost", "1.79"⟩]
    ∃ s, ofParameters ps = .ok s ∧ s.get? .cmake = some ⟨"cmake", "3.22"⟩ ∧
      (s.edits es).get? .cmake = none ∧ (s.edits es).get? .boost = some ⟨"boost", "1.79"⟩ ∧
      ofParameters (s.edits es).parameters = .ok (s.edits es) := by
  intro ps es
  obtain ⟨s, hs⟩ : ∃ s, ofParameters ps = .ok s := ⟨_, rfl⟩
  obtain ⟨-, hmade, hresults⟩ := ways_to_build_agree ps s es
  have hcmake : s.get? .cmake = some ⟨"cmake", "3.22"⟩ :=
    ((hmade s hs).2 _ _).2 ⟨ps.dropLast, [], rfl, nofun⟩
  have hlast : ∀ e ∈ [Edit.bind .boost ⟨"boost", "1.79"⟩], e.category ≠ .cmake := by
    simp [Edit.category]
  exact ⟨s, hs, hcmake, hresults.last [_] (.remove .cmake _) _ rfl hlast,
    hresults.last [_, _] (.bind .boost _) [] rfl nofun, hresults.remade⟩

end Record

end JobMatrix
