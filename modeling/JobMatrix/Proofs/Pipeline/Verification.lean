import JobMatrix.Proofs.Job.Building
import JobMatrix.Proofs.Pipeline.Assembly
import JobMatrix.Proofs.Pipeline.Findings

/-!
# Verification and assembly agree

`Matrix.verify` checks records by rules of its own, and `Pipeline.assemble` builds their jobs.
This file compares the two.

* `findSome?_malformed` walks through the findings of a report: the first record reported as
  malformed is the first one that no job can be built from.
* `findingsFrom_eq_nil_iff` says what it takes that nothing is found.
* `verify_agrees_with_assembly` puts both next to `Pipeline.assemble`.
-/

set_option autoImplicit false

namespace JobMatrix

/-- The position of a record reported as malformed. -/
def Finding.malformedAt? : Finding → Option Position
  | malformed p _ => some p
  | _ => none

namespace Record

/-- The record has a backend, and not as `off`. -/
def Enables (r : Record) (b : Backend) : Prop :=
  ∃ p, r.get? (.backend b) = some p ∧ p.version ≠ "off"

theorem isSome_enabled?_iff {r : Record} {b : Backend} : (r.enabled? b).isSome ↔ r.Enables b := by
  rw [enabled?, Option.isSome_map, Option.isSome_filter, Enables, get?]
  cases r.backends b with
  | none => simp
  | some p => simp [Parameter.isOff, Parameter.off]

/-- CUDA and HIP are both enabled. -/
def Conflicts (r : Record) : Prop := r.Enables .gpuCuda ∧ r.Enables .gpuHip

end Record

namespace Matrix

variable {version : ContainerVersion}

/-! ## Malformed records -/

theorem failureAt?_eq_none_iff (version : ContainerVersion) (q : Position × Record) :
    Pipeline.failureAt? version q = none ↔
      q.2.checkVersions = .ok () ∧ ∃ name, q.2.jobName = .ok name := by
  rw [Pipeline.failureAt?, Option.map_eq_none_iff, failureOf?_eq_none_iff, Record.exists_job_iff]

/-- What is found on a record by itself reports it as malformed if its versions fail the check. -/
theorem findSome?_findingsAt (r : Record) (p : Position) :
    (r.findingsAt p).findSome? Finding.malformedAt?
      = (failureOf? r.checkVersions).map fun _ => p := by
  rw [Record.findingsAt]
  cases r.checkVersions <;> split <;> rfl

/-- **The first malformed record** of the findings is the first record without a job. -/
theorem findSome?_malformed (version : ContainerVersion) (ps : List (Position × Record)) :
    ∀ seen, (findingsFrom seen ps).findSome? Finding.malformedAt?
      = (ps.find? fun q => (Pipeline.failureAt? version q).isSome).map Prod.fst := by
  induction ps with
  | nil => intro seen; rfl
  | cons q ps ih =>
    intro seen
    obtain ⟨p, r⟩ := q
    rw [findingsFrom, List.append_assoc, List.findSome?_append, findSome?_findingsAt,
      List.find?_cons, nameFindings, remember]
    dsimp only
    have hnone := failureAt?_eq_none_iff version (p, r)
    cases hcheck : r.checkVersions with
    | error e =>
      have hsome : (Pipeline.failureAt? version (p, r)).isSome = true := by
        rw [Option.isSome_iff_ne_none, Ne, hnone]
        simp [hcheck]
      rw [hsome]
      rfl
    | ok _ =>
      rw [failureOf?_ok, Option.map_none, Option.none_or]
      cases hname : r.jobName with
      | error e =>
        have hsome : (Pipeline.failureAt? version (p, r)).isSome = true := by
          rw [Option.isSome_iff_ne_none, Ne, hnone]
          simp [hname]
        rw [hsome]
        rfl
      | ok name =>
        have hsome : (Pipeline.failureAt? version (p, r)).isSome = false := by
          rw [Option.isSome_eq_false_iff, Option.isNone_iff_eq_none, hnone]
          exact ⟨hcheck, name, hname⟩
        rw [hsome]
        dsimp only
        -- a repeated name is a finding of another kind, so it only changes the names seen
        cases seen.lookup name with
        | some first => exact ih seen
        | none => exact ih _

/-! ## Nothing found -/

theorem findingsAt_eq_nil_iff (r : Record) (p : Position) :
    r.findingsAt p = [] ↔ ¬r.Conflicts ∧ r.checkVersions = .ok () := by
  have hconflict : ((r.enabled? .gpuCuda).isSome && (r.enabled? .gpuHip).isSome) = true ↔
      r.Conflicts := by
    rw [Bool.and_eq_true, Record.isSome_enabled?_iff, Record.isSome_enabled?_iff, Record.Conflicts]
  rw [Record.findingsAt, List.append_eq_nil_iff]
  refine and_congr ?_ ?_
  · rw [← hconflict]
    split <;> simp_all
  · cases r.checkVersions <;> simp

/-- **Nothing is found** when no record is wrong by itself and no name repeats, neither within
the records nor among the names seen before. -/
theorem findingsFrom_eq_nil_iff (ps : List (Position × Record)) :
    ∀ seen, findingsFrom seen ps = [] ↔
      (∀ q ∈ ps, ¬q.2.Conflicts ∧ q.2.checkVersions = .ok ()) ∧
        ∃ names, List.Forall₂ (fun q name => q.2.jobName = .ok name) ps names ∧
          names.Nodup ∧ ∀ name ∈ names, seen.lookup name = none := by
  induction ps with
  | nil =>
    intro seen
    refine ⟨fun _ => ⟨by simp, [], .nil, List.nodup_nil, by simp⟩, fun _ => rfl⟩
  | cons q ps ih =>
    intro seen
    obtain ⟨p, r⟩ := q
    rw [findingsFrom, List.append_assoc, List.append_eq_nil_iff, findingsAt_eq_nil_iff,
      nameFindings, remember]
    simp only [List.forall_mem_cons, List.forall₂_cons_left_iff]
    cases hname : r.jobName with
    | error e => simp
    | ok name =>
      dsimp only
      cases hseen : seen.lookup name with
      | some first =>
        constructor
        · rintro ⟨-, h⟩
          cases h
        · rintro ⟨-, _, ⟨name', names, hname', -, rfl⟩, -, hnew⟩
          cases hname'
          rw [hnew name List.mem_cons_self] at hseen
          cases hseen
      | none =>
        change _ ∧ findingsFrom ((name, p) :: seen) ps = [] ↔ _
        rw [ih]
        constructor
        · rintro ⟨hr, hps, names, hnames, hnodup, hnew⟩
          refine ⟨⟨hr, hps⟩, _, ⟨name, names, rfl, hnames, rfl⟩, ?_, ?_⟩
          · refine List.nodup_cons.2 ⟨fun hmem => ?_, hnodup⟩
            simpa using hnew name hmem
          · rintro other (_ | ⟨_, hmem⟩)
            · exact hseen
            · have h := hnew other hmem
              rw [List.lookup_cons] at h
              split at h
              · cases h
              · exact h
        · rintro ⟨⟨hr, hps⟩, _, ⟨name', names, hname', hnames, rfl⟩, hnodup, hnew⟩
          cases hname'
          obtain ⟨hfresh, hnodup⟩ := List.nodup_cons.1 hnodup
          refine ⟨hr, hps, names, hnames, hnodup, fun other hmem => ?_⟩
          have hne : other ≠ name := fun h => hfresh (h ▸ hmem)
          rw [List.lookup_cons, beq_eq_false_iff_ne.2 hne]
          exact hnew other (List.mem_cons_of_mem _ hmem)

end Matrix

/-! ## The jobs of an assembled pipeline -/

/-- The jobs of an assembled pipeline are those of the records of the matrix, in order. -/
theorem Pipeline.forall₂_jobs {m : Matrix} {version : ContainerVersion} {template : Template}
    {p : Pipeline} (h : (Pipeline.assemble m version template).outcome = .ok p) :
    List.Forall₂ (fun r j => r.jobName = .ok j.name) m.flatten p.jobs := by
  obtain ⟨hstages, -, -⟩ := assemble_outcome_iff.1 h
  have hwaves : List.Forall₂ (List.Forall₂ fun r j => r.jobName = .ok j.name)
      (m.zipIdx.map Prod.fst) (p.stages.map (·.jobs)) := by
    rw [List.forall₂_map_left_iff, List.forall₂_map_right_iff]
    refine hstages.imp fun entry s hs => hs.2.imp fun r j hj => ?_
    exact ((Record.job_outcome_iff r version _ j).1 hj).1
  rw [List.zipIdx_map_fst] at hwaves
  rw [Pipeline.jobs, List.flatMap_def]
  exact List.rel_flatten hwaves

namespace Matrix

variable (m : Matrix) (version : ContainerVersion) (template : Template)

/-- Every record of the matrix has a job exactly if assembly succeeds. -/
theorem exists_assemble_iff :
    (∃ p, (Pipeline.assemble m version template).outcome = .ok p) ↔
      ∀ q ∈ m.positioned, q.2.checkVersions = .ok () ∧ ∃ name, q.2.jobName = .ok name := by
  rw [← failureOf?_eq_none_iff, Pipeline.failureOf?_assemble, List.findSome?_eq_none_iff]
  simp only [failureAt?_eq_none_iff]

/-- **The verdict.**  Verification passes exactly if a pipeline can be assembled, its jobs have
names of their own, and no record enables both accelerators. -/
theorem passed_iff_assembles :
    (report m).passed = true ↔
      ∃ p, (Pipeline.assemble m version template).outcome = .ok p ∧
        (p.jobs.map (·.name)).Nodup ∧ ∀ r ∈ m.flatten, ¬r.Conflicts := by
  have hjobs : ∀ {p : Pipeline}, (Pipeline.assemble m version template).outcome = .ok p →
      List.Forall₂ (fun q name => q.2.jobName = .ok name) m.positioned (p.jobs.map (·.name)) := by
    intro p hp
    rw [List.forall₂_map_right_iff]
    have h := Pipeline.forall₂_jobs hp
    rw [← map_snd_positioned, List.forall₂_map_left_iff] at h
    exact h
  have hflat : (∀ r ∈ m.flatten, ¬r.Conflicts) ↔ ∀ q ∈ m.positioned, ¬q.2.Conflicts := by
    rw [← map_snd_positioned, List.forall_mem_map]
  rw [VerifyReport.passed, List.isEmpty_iff, report_eq, findingsFrom_eq_nil_iff]
  constructor
  · rintro ⟨hrecords, names, hnames, hnodup, -⟩
    have hnamed : ∀ q ∈ m.positioned, ∃ name, q.2.jobName = .ok name := fun q hq =>
      (List.forall₂_iff_get.1 hnames).elim fun hlength hget => by
        obtain ⟨i, hi, rfl⟩ := List.mem_iff_getElem.1 hq
        exact ⟨_, hget i hi (hlength ▸ hi)⟩
    obtain ⟨p, hp⟩ := (exists_assemble_iff m version template).2
      fun q hq => ⟨(hrecords q hq).2, hnamed q hq⟩
    refine ⟨p, hp, ?_, hflat.2 fun q hq => (hrecords q hq).1⟩
    -- a record has one name only, so the names found are those of the jobs
    have hunique : Relator.RightUnique fun (q : Position × Record) name =>
        q.2.jobName = .ok name := fun _ _ _ h₁ h₂ => Except.ok.inj (h₁.symm.trans h₂)
    have heq : names = p.jobs.map (·.name) := List.right_unique_forall₂' hunique hnames (hjobs hp)
    exact heq ▸ hnodup
  · rintro ⟨p, hp, hnodup, hconflicts⟩
    have hbuilt := (exists_assemble_iff m version template).1 ⟨p, hp⟩
    exact ⟨fun q hq => ⟨hflat.1 hconflicts q hq, (hbuilt q hq).1⟩, _, hjobs hp, hnodup,
      fun _ _ => rfl⟩

/-- **Verification agrees with assembly.**  A record is reported as malformed exactly if assembly
fails, and then it fails at the first such record; and verification passes exactly if assembly
succeeds, the job names differ, and no record enables both accelerators. -/
theorem verify_agrees_with_assembly :
    ((∃ p reason, Finding.malformed p reason ∈ m.verify.value.findings) ↔
        ∃ e, (Pipeline.assemble m version template).outcome = .error e) ∧
      (∀ e, (Pipeline.assemble m version template).outcome = .error e →
        ∃ p source, e = .job p.wave p.index source ∧
          m.verify.value.findings.findSome? Finding.malformedAt? = some p) ∧
      (m.verify.value.passed = true ↔
        ∃ p, (Pipeline.assemble m version template).outcome = .ok p ∧
          (p.jobs.map (·.name)).Nodup ∧
          ∀ r ∈ m.flatten, ¬(r.Enables .gpuCuda ∧ r.Enables .gpuHip)) := by
  have hfirst := findSome?_malformed version m.positioned []
  have hfailure := Pipeline.failureOf?_assemble version m template
  refine ⟨?_, fun e he => ?_, passed_iff_assembles m version template⟩
  · have hmem : (∃ p reason, Finding.malformed p reason ∈ m.verify.value.findings) ↔
        ((findingsFrom [] m.positioned).findSome? Finding.malformedAt?).isSome = true := by
      rw [findings_verify, List.findSome?_isSome_iff]
      constructor
      · rintro ⟨p, reason, h⟩
        exact ⟨_, h, rfl⟩
      · rintro ⟨f, hf, hsome⟩
        cases f with
        | malformed p reason => exact ⟨p, reason, hf⟩
        | duplicateName => cases hsome
        | conflictingBackends => cases hsome
    rw [hmem, hfirst, Option.isSome_map, List.find?_isSome]
    constructor
    · rintro ⟨q, hq, hsome⟩
      cases h : (Pipeline.assemble m version template).outcome with
      | error e => exact ⟨e, rfl⟩
      | ok p =>
        rw [h, failureOf?_ok, eq_comm, List.findSome?_eq_none_iff] at hfailure
        rw [hfailure q hq] at hsome
        cases hsome
    · rintro ⟨e, he⟩
      rw [he, failureOf?_error, eq_comm] at hfailure
      obtain ⟨q, hq, hsome⟩ := List.exists_of_findSome?_eq_some hfailure
      exact ⟨q, hq, by rw [hsome]; rfl⟩
  · rw [he, failureOf?_error, eq_comm, List.findSome?_eq_some_iff] at hfailure
    obtain ⟨before, q, after, hps, hq, hbefore⟩ := hfailure
    obtain ⟨source, -, rfl⟩ := Option.map_eq_some_iff.1 hq
    refine ⟨q.1, source, rfl, ?_⟩
    have hfind : m.positioned.find? (fun q => (Pipeline.failureAt? version q).isSome)
        = some q := by
      rw [List.find?_eq_some_iff_append]
      refine ⟨by rw [hq]; rfl, before, after, hps, fun a ha => ?_⟩
      rw [hbefore a ha]
      rfl
    rw [findings_verify, hfirst, hfind]
    rfl

end Matrix

end JobMatrix
