import JobMatrix.Proofs.Job.Naming
import JobMatrix.Proofs.Pipeline.Assembly
import JobMatrix.Proofs.Pipeline.Findings
import Mathlib.Algebra.GroupWithZero.Nat
import Mathlib.Data.Finset.Card
import Mathlib.Data.List.Perm.Basic

/-!
# Arrangement

The order of the records and the division into waves do not matter to the verdict.  Which of two
records with one name is reported does depend on the order, but not how many are: all of them but
one for each name (`countP_duplicateName_add_card`).
-/

set_option autoImplicit false

namespace JobMatrix.Matrix

variable {m m' : Matrix}

/-- How often a record is reported whatever stands in front of it. -/
def fixedCount (kind : Finding.Kind) (r : Record) : Nat :=
  ownCount r kind + nameCount [] r kind

/-- The names among some records, each as often as there are records with it. -/
def namesOf (rs : List Record) : List String :=
  rs.filterMap fun r => r.jobName.toOption

/-! ## Counts -/

/-- Findings other than duplicate names are counted record by record. -/
theorem countP_findingsFrom {kind : Finding.Kind} (hkind : kind ≠ .duplicateName) :
    ∀ (ps : List (Position × Record)) (seen : List (String × Position)),
      (findingsFrom seen ps).countP (fun f => f.kind = kind)
        = (ps.map fun q => fixedCount kind q.2).sum
  | [], _ => rfl
  | q :: ps, seen => by
    have hname : nameCount seen q.2 kind = nameCount [] q.2 kind := by
      cases kind with
      | duplicateName => exact absurd rfl hkind
      | conflictingBackends => rfl
      | malformed => rfl
    rw [countP_findingsFrom_cons, countP_findingsFrom hkind ps, List.map_cons, List.sum_cons,
      fixedCount, hname]

/-- The names behind a record that were not seen before. -/
theorem newNames_remember (seen : List (String × Position)) (q : Position × Record) {name : String}
    (hname : q.2.jobName = .ok name) (names : List String) :
    names.toFinset.filter (fun n => (remember seen q).lookup n = none)
      = ((name :: names).toFinset.filter fun n => seen.lookup n = none).erase name := by
  ext n
  simp only [Finset.mem_filter, Finset.mem_erase, List.mem_toFinset, List.mem_cons,
    lookup_remember, hname, Except.ok.injEq, Option.or_eq_none_iff, ite_eq_right_iff, reduceCtorEq,
    imp_false]
  constructor
  · rintro ⟨hn, hseen, hne⟩
    exact ⟨Ne.symm hne, .inr hn, hseen⟩
  · rintro ⟨hne, rfl | hn, hseen⟩
    · exact absurd rfl hne
    · exact ⟨hn, hseen, Ne.symm hne⟩

/-- **Duplicates and first uses.**  Each record with a name is a duplicate, or the first with a name
that was not seen before. -/
theorem countP_duplicateName_add_card :
    ∀ (ps : List (Position × Record)) (seen : List (String × Position)),
      (findingsFrom seen ps).countP (fun f => f.kind = .duplicateName)
          + ((namesOf (ps.map Prod.snd)).toFinset.filter fun n => seen.lookup n = none).card
        = (namesOf (ps.map Prod.snd)).length
  | [], _ => rfl
  | q :: ps, seen => by
    have ih := countP_duplicateName_add_card ps (remember seen q)
    rw [countP_findingsFrom_cons, List.map_cons, namesOf, List.filterMap_cons, ← namesOf, ownCount,
      nameCount]
    cases hname : q.2.jobName with
    | error e =>
      have hseen : remember seen q = seen := by rw [remember, hname]
      rw [hseen] at ih ⊢
      simpa [Except.toOption] using ih
    | ok name =>
      rw [newNames_remember seen q hname] at ih
      simp only [Except.toOption, Option.bind_some, List.length_cons]
      cases hlookup : seen.lookup name with
      | none =>
        have hmem : name ∈ (name :: namesOf (ps.map Prod.snd)).toFinset.filter
            fun n => seen.lookup n = none := by
          simp [hlookup]
        have hcard := Finset.card_erase_add_one hmem
        simp only [Option.isSome_none, Bool.toNat_false]
        omega
      | some first =>
        have hmem : name ∉ (name :: namesOf (ps.map Prod.snd)).toFinset.filter
            fun n => seen.lookup n = none := by
          simp [hlookup]
        rw [Finset.erase_eq_of_notMem hmem] at ih
        simp only [Option.isSome_some, Bool.toNat_true]
        omega

/-! ## Matrices -/

/-- How many findings of a kind verification makes. -/
def findingCount (m : Matrix) (kind : Finding.Kind) : Nat :=
  m.verify.value.findings.countP fun f => f.kind = kind

theorem findingCount_eq_sum {kind : Finding.Kind} (hkind : kind ≠ .duplicateName) (m : Matrix) :
    m.findingCount kind = (m.flatten.map (fixedCount kind)).sum := by
  rw [findingCount, findings_verify, ← map_snd_positioned, List.map_map]
  exact countP_findingsFrom hkind m.positioned []

theorem findingCount_duplicateName_add_card (m : Matrix) :
    m.findingCount .duplicateName + (namesOf m.flatten).toFinset.card
      = (namesOf m.flatten).length := by
  have hcount := countP_duplicateName_add_card m.positioned []
  rw [map_snd_positioned] at hcount
  simp only [List.lookup_nil, Finset.filter_true] at hcount
  rw [findingCount, findings_verify]
  exact hcount

theorem findingCount_perm (h : m.flatten.Perm m'.flatten) (kind : Finding.Kind) :
    m.findingCount kind = m'.findingCount kind := by
  by_cases hkind : kind = .duplicateName
  · have hnames : (namesOf m.flatten).Perm (namesOf m'.flatten) := h.filterMap _
    have hcount := findingCount_duplicateName_add_card m
    have hcount' := findingCount_duplicateName_add_card m'
    rw [List.toFinset_eq_of_perm _ _ hnames, hnames.length_eq] at hcount
    rw [hkind]
    omega
  · rw [findingCount_eq_sum hkind, findingCount_eq_sum hkind, (h.map _).sum_nat]

/-- Verification passes when there is no finding of any kind. -/
theorem passed_iff_findingCount (m : Matrix) :
    m.verify.value.passed ↔ ∀ kind, m.findingCount kind = 0 := by
  rw [VerifyReport.passed, List.isEmpty_iff]
  constructor
  · intro h kind
    rw [findingCount, h, List.countP_nil]
  · intro h
    refine List.eq_nil_iff_forall_not_mem.2 fun f hf => ?_
    exact List.countP_eq_zero.1 (h f.kind) f hf (decide_eq_true rfl)

/-- **The verdict is on the records.**  Two matrices with the same records, each as often in one as
in the other, have the same number of jobs, of findings of each kind, and the same verdict. -/
theorem verify_perm (h : m.flatten.Perm m'.flatten) :
    m.verify.value.jobsChecked = m'.verify.value.jobsChecked ∧
      m.verify.value.passed = m'.verify.value.passed ∧
      ∀ kind, m.findingCount kind = m'.findingCount kind := by
  have hcount := findingCount_perm h
  refine ⟨by rw [jobsChecked_verify, jobsChecked_verify, h.length_eq], ?_, hcount⟩
  rw [Bool.eq_iff_iff, passed_iff_findingCount, passed_iff_findingCount]
  simp only [hcount]

/-- The record that is there twice is reported at another place, but as often. -/
theorem verify_perm_release :
    let gcc := Record.release ⟨"gcc", "11"⟩ ⟨"gcc", "11"⟩ Parameter.off
    let clang := Record.release ⟨"clang", "14"⟩ ⟨"clang", "14"⟩ Parameter.off
    let m : Matrix := [[gcc], [clang, gcc]]
    let m' : Matrix := [[gcc, gcc, clang]]
    m.flatten.Perm m'.flatten ∧ m.verify.value.findings ≠ m'.verify.value.findings ∧
      m'.verify.value.passed = false ∧ m'.findingCount .duplicateName = 1 := by
  intro gcc clang m m'
  have h : m.flatten.Perm m'.flatten := .cons gcc (.swap gcc clang [])
  obtain ⟨-, hpassed, hcount⟩ := verify_perm h
  exact ⟨h, by decide +kernel, hpassed ▸ by decide +kernel,
    (hcount .duplicateName).symm.trans (by decide +kernel)⟩

end JobMatrix.Matrix
