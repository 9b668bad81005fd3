import JobMatrix.Proofs.Pipeline.Findings
import Mathlib.Algebra.GroupWithZero.Nat

/-!
# Duplicate names

A name is reported as a duplicate at every record that has it but the first, and always together
with that first one: `duplicates_are_exact` says so for all matrices, and adds how many findings of
each kind a record may have.
-/

set_option autoImplicit false

namespace JobMatrix.Matrix

variable {m : Matrix} {p : Position} {r : Record} {name : String}

/-- The record at this position has this name. -/
def HasName (m : Matrix) (p : Position) (name : String) : Prop :=
  ∃ r, m.at? p = some r ∧ r.jobName = .ok name

/-- The first of the records in front of a position that have this name. -/
structure FirstNamed (m : Matrix) (p : Position) (name : String) (first : Position) : Prop where
  named : m.HasName first name
  before : first.Before p
  least : ∀ q, q.Before p → m.HasName q name → q = first ∨ first.Before q

/-- The findings of a kind on the record at a position. -/
def findingsOn (m : Matrix) (kind : Finding.Kind) (p : Position) : List Finding :=
  m.verify.value.findings.filter fun f => f.kind = kind ∧ f.position = p

/-! ## The records in front of a position -/

theorem exists_split (h : m.at? p = some r) :
    ∃ before after, m.positioned = before ++ (p, r) :: after :=
  List.append_of_mem (mem_positioned_iff.2 h)

/-- The first record in front of a position that has a name is the one found in the list. -/
theorem firstNamed_of_find? {before after : List (Position × Record)} {a : Position × Record}
    (h : m.positioned = before ++ (p, r) :: after)
    (ha : before.find? (fun q => q.2.jobName = .ok name) = some a) : m.FirstNamed p name a.1 := by
  obtain ⟨hname, front, back, rfl, hfront⟩ := List.find?_eq_some_iff_append.1 ha
  obtain ⟨hat, hbefore⟩ := (mem_before_iff h).1
    (List.mem_append_right front (List.mem_cons_self : a ∈ a :: back))
  refine ⟨⟨a.2, hat, of_decide_eq_true hname⟩, hbefore, ?_⟩
  rintro q hq ⟨s, hs, hsname⟩
  have hsorted := pairwise_positioned m
  rw [h, List.pairwise_append, List.pairwise_append, List.pairwise_cons] at hsorted
  have hmem : (q, s) ∈ front ++ a :: back := (mem_before_iff h).2 ⟨hs, hq⟩
  rcases List.mem_append.1 hmem with hmem | hmem
  · have hother := hfront _ hmem
    rw [decide_eq_true hsname] at hother
    cases hother
  · rcases List.mem_cons.1 hmem with rfl | hmem
    · exact .inl rfl
    · exact .inr (hsorted.1.2.1.1 _ hmem)

theorem find?_eq_none_iff_names {before after : List (Position × Record)}
    (h : m.positioned = before ++ (p, r) :: after) :
    before.find? (fun q => q.2.jobName = .ok name) = none ↔
      ∀ q, q.Before p → ¬m.HasName q name := by
  rw [List.find?_eq_none]
  constructor
  · rintro hnone q hq ⟨s, hs, hname⟩
    exact hnone (q, s) ((mem_before_iff h).2 ⟨hs, hq⟩) (decide_eq_true hname)
  · intro hnone a ha hname
    obtain ⟨hat, hbefore⟩ := (mem_before_iff h).1 ha
    exact hnone a.1 hbefore ⟨a.2, hat, of_decide_eq_true hname⟩

/-! ## The findings on a record -/

/-- What is found on a record is of some kind. -/
theorem findingsOn_eq {before after : List (Position × Record)} (kind : Finding.Kind)
    (h : m.positioned = before ++ (p, r) :: after) :
    m.findingsOn kind p
      = (r.findingsAt p ++ nameFindings (before.foldl remember []) (p, r)).filter
        fun f => f.kind = kind := by
  rw [← filter_position_findingsFrom h (pairwise_positioned m), List.filter_filter, findingsOn,
    findings_verify]
  exact List.filter_congr fun f _ => Bool.decide_and _ _

theorem findingsOn_eq_nil (kind : Finding.Kind) (h : m.at? p = none) :
    m.findingsOn kind p = [] := by
  rw [findingsOn, List.filter_eq_nil_iff]
  intro f hf
  rw [findings_verify] at hf
  obtain ⟨q, hq, hposition⟩ := position_of_mem_findingsFrom hf
  have hat := mem_positioned_iff.1 hq
  rw [decide_eq_true_eq, not_and]
  rintro - rfl
  rw [hposition, hat] at h
  cases h

theorem filter_duplicateName_findingsAt (r : Record) (p : Position) :
    (r.findingsAt p).filter (fun f => f.kind = .duplicateName) = [] := by
  rw [Record.findingsAt]
  cases r.checkVersions <;> split <;> rfl

/-- The most findings of a kind that a record may have. -/
def mostFindings : Finding.Kind → Nat
  | .duplicateName => 1
  | .conflictingBackends => 1
  | .malformed => 2

theorem length_findingsOn_le (m : Matrix) (kind : Finding.Kind) (p : Position) :
    (m.findingsOn kind p).length ≤ mostFindings kind := by
  cases h : m.at? p with
  | none =>
    rw [findingsOn_eq_nil kind h]
    exact Nat.zero_le _
  | some r =>
    obtain ⟨before, after, hps⟩ := exists_split h
    rw [findingsOn_eq kind hps, ← List.countP_eq_length_filter, List.countP_append,
      countP_findingsAt, countP_nameFindings]
    cases kind with
    | duplicateName => exact (Nat.zero_add _).trans_le (Bool.toNat_le _)
    | conflictingBackends => exact Bool.toNat_le _
    | malformed => exact Nat.add_le_add (Bool.toNat_le _) (Bool.toNat_le _)

/-- What makes a name a duplicate is the first record that has it. -/
theorem findingsOn_duplicateName {before after : List (Position × Record)}
    (h : m.positioned = before ++ (p, r) :: after) (hname : r.jobName = .ok name) :
    m.findingsOn .duplicateName p
      = ((before.find? fun q => q.2.jobName = .ok name).map fun first =>
          Finding.duplicateName name first.1 p).toList := by
  rw [findingsOn_eq _ h, List.filter_append, filter_duplicateName_findingsAt, List.nil_append,
    nameFindings, hname]
  dsimp only
  rw [lookup_foldl_remember, List.lookup_nil, Option.none_or]
  cases before.find? fun q => q.2.jobName = .ok name <;> rfl

theorem findingsOn_duplicateName_of_error {e : JobError} (h : m.at? p = some r)
    (hname : r.jobName = .error e) : m.findingsOn .duplicateName p = [] := by
  obtain ⟨before, after, hps⟩ := exists_split h
  rw [findingsOn_eq _ hps, List.filter_append, filter_duplicateName_findingsAt, List.nil_append,
    nameFindings, hname]
  rfl

/-- **Duplicates are exact.**  A record whose name an earlier one has is reported once, with that
name and the first record that has it; any other record is not.  All records are counted, findings
come in the order of the records, and there are at most so many of each kind on one record. -/
theorem duplicates_are_exact (m : Matrix) :
    m.verify.value.jobsChecked = (m.map List.length).sum ∧
      m.verify.value.findings.Pairwise
        (fun f g => f.position = g.position ∨ f.position.Before g.position) ∧
      (∀ p, (m.findingsOn .conflictingBackends p).length ≤ 1 ∧
        (m.findingsOn .duplicateName p).length ≤ 1 ∧ (m.findingsOn .malformed p).length ≤ 2) ∧
      ∀ p r, m.at? p = some r →
        (∀ name, r.jobName = .ok name → (∃ q, q.Before p ∧ m.HasName q name) →
          ∃ first, m.FirstNamed p name first ∧
            m.findingsOn .duplicateName p = [.duplicateName name first p]) ∧
        ((¬∃ name q, r.jobName = .ok name ∧ q.Before p ∧ m.HasName q name) →
          m.findingsOn .duplicateName p = []) := by
  refine ⟨(jobsChecked_verify m).trans List.length_flatten,
    findings_verify m ▸ pairwise_findingsFrom (pairwise_positioned m),
    fun p => ⟨length_findingsOn_le m _ p, length_findingsOn_le m _ p, length_findingsOn_le m _ p⟩,
    fun p r hr => ?_⟩
  obtain ⟨before, after, hps⟩ := exists_split hr
  constructor
  · rintro name hname ⟨q, hq, hqname⟩
    rw [findingsOn_duplicateName hps hname]
    cases hfind : before.find? fun q => q.2.jobName = .ok name with
    | none => exact absurd hqname ((find?_eq_none_iff_names hps).1 hfind q hq)
    | some a => exact ⟨a.1, firstNamed_of_find? hps hfind, rfl⟩
  · intro hnone
    cases hname : r.jobName with
    | error e => exact findingsOn_duplicateName_of_error hr hname
    | ok name =>
      have hfind : before.find? (fun q => q.2.jobName = .ok name) = none :=
        (find?_eq_none_iff_names hps).2 fun q hq hqname => hnone ⟨name, q, hname, hq, hqname⟩
      rw [findingsOn_duplicateName hps hname, hfind]
      rfl

end JobMatrix.Matrix
