import JobMatrix.Proofs.Job.Building
import JobMatrix.Proofs.Pipeline.Assembly
import JobMatrix.Proofs.Pipeline.Position
import Std.Data.String.ToNat

/-!
# Assembly loses, repeats and moves nothing

`Pipeline.Arranges` says what an assembled pipeline has of its matrix: a stage for each wave and a
job for each record, each in its place.  The number of a wave is used for the label of its stage, for
the stage of its jobs, and for the position in an error, and `assemble_arranges` has all three
together.
-/

set_option autoImplicit false

namespace JobMatrix

/-- Stages of different waves have different labels. -/
theorem stageLabel_injective : Function.Injective stageLabel := by
  intro i j h
  exact Nat.repr_injective ((String.append_right_inj "stage").1 h)

/-- A job can be built from every record, with the label of its wave. -/
def Matrix.Buildable (m : Matrix) (version : ContainerVersion) : Prop :=
  ∀ q r, m.at? q = some r → ∃ j, (r.job version (stageLabel q.wave)).outcome = .ok j

namespace Pipeline

/-- The stages of a pipeline are the waves of a matrix, with the jobs of their records. -/
structure Arranges (p : Pipeline) (m : Matrix) (version : ContainerVersion) : Prop where
  length : p.stages.length = m.length
  stage : ∀ (i : Nat) (w : Wave), m[i]? = some w → ∃ s : Stage, p.stages[i]? = some s ∧
    s.label = "stage" ++ toString i ∧
      List.Forall₂ (fun (r : Record) j => (r.job version s.label).outcome = .ok j) w s.jobs
  label : ∀ s ∈ p.stages, ∀ j ∈ s.jobs, j.body.stage = s.label
  nodup : p.stageLabels.Nodup
  jobs : p.jobs = (p.stages.map (·.jobs)).flatten
  jobCount : p.jobCount = m.flatten.length

variable {m : Matrix} {version : ContainerVersion} {template : Template}

/-- The labels of the stages count the waves. -/
theorem stageLabels_of_assemble {p : Pipeline}
    (h : (assemble m version template).outcome = .ok p) :
    p.stageLabels = m.zipIdx.map fun entry => stageLabel entry.2 := by
  have hlabels : List.Forall₂ Eq (m.zipIdx.map fun entry => stageLabel entry.2) p.stageLabels := by
    rw [stageLabels, List.forall₂_map_left_iff, List.forall₂_map_right_iff]
    exact (assemble_outcome_iff.1 h).1.imp fun entry s hs => hs.1.symm
  rw [List.forall₂_eq_eq_eq] at hlabels
  exact hlabels.symm

/-- The stage of a wave is at the place of the wave. -/
theorem exists_stage_of_assemble {p : Pipeline}
    (h : (assemble m version template).outcome = .ok p) {i : Nat} {w : Wave}
    (hw : m[i]? = some w) : ∃ s, p.stages[i]? = some s ∧ Holds version (w, i) s := by
  obtain ⟨hi, rfl⟩ := List.getElem?_eq_some_iff.1 hw
  obtain ⟨hlength, hget⟩ := List.forall₂_iff_get.1 (assemble_outcome_iff.1 h).1
  have hizip : i < m.zipIdx.length := by rwa [List.length_zipIdx]
  have histages : i < p.stages.length := hlength ▸ hizip
  have hholds := hget i hizip histages
  rw [List.get_eq_getElem, List.getElem_zipIdx, Nat.zero_add] at hholds
  exact ⟨_, List.getElem?_eq_getElem histages, hholds⟩

/-- What holds of all right sides holds of all members on the right. -/
theorem forall_mem_of_forall₂ {α β : Type} {P : β → Prop} {l : List α} {l' : List β}
    (h : List.Forall₂ (fun _ b => P b) l l') : ∀ b ∈ l', P b := by
  induction h with
  | nil => exact nofun
  | cons hb _ ih => exact List.forall_mem_cons.2 ⟨hb, ih⟩

/-- The jobs of a wave are in its stage. -/
theorem Holds.stage_eq {entry : Wave × Nat} {s : Stage} (hs : Holds version entry s) :
    ∀ j ∈ s.jobs, j.body.stage = s.label := by
  obtain ⟨hlabel, hjobs⟩ := hs
  refine forall_mem_of_forall₂ (hjobs.imp fun r j hj => ?_)
  rw [hlabel]
  exact ((Record.job_outcome_iff r version _ j).1 hj).2.2.2.2.1

/-- **A success of assembly** arranges the matrix. -/
theorem arranges_of_assemble {p : Pipeline}
    (h : (assemble m version template).outcome = .ok p) : p.Arranges m version where
  length := length_stages_of_assemble h
  stage i w hw := by
    obtain ⟨s, hs, hlabel, hjobs⟩ := exists_stage_of_assemble h hw
    refine ⟨s, hs, hlabel, ?_⟩
    rw [hlabel]
    exact hjobs
  label := forall_mem_of_forall₂ ((assemble_outcome_iff.1 h).1.imp fun _ _ hs => hs.stage_eq)
  nodup := by
    rw [stageLabels_of_assemble h, List.Nodup, List.pairwise_map]
    exact (Matrix.pairwise_zipIdx m).imp fun hij heq => Nat.ne_of_lt hij (stageLabel_injective heq)
  jobs := List.flatMap_def
  jobCount := (jobCount_of_assemble h).trans m.jobCount_eq

/-- **A failure of assembly** is at a record that cannot be built, and all records before it can. -/
theorem assemble_error_iff {e : PipelineError} :
    (assemble m version template).outcome = .error e ↔
      ∃ q r source, m.at? q = some r ∧
        (r.job version (stageLabel q.wave)).outcome = .error source ∧
        e = .job q.wave q.index source ∧
        ∀ q' r', q'.Before q → m.at? q' = some r' →
          ∃ j, (r'.job version (stageLabel q'.wave)).outcome = .ok j := by
  rw [← failureOf?_eq_some_iff, failureOf?_assemble, List.findSome?_eq_some_iff]
  constructor
  · rintro ⟨before, q, after, hsplit, hq, hbefore⟩
    obtain ⟨source, hsource, rfl⟩ := Option.map_eq_some_iff.1 hq
    have hmem : q ∈ m.positioned := hsplit ▸ List.mem_append_right _ List.mem_cons_self
    refine ⟨q.1, q.2, source, Matrix.mem_positioned_iff.1 hmem, failureOf?_eq_some_iff.1 hsource,
      rfl, fun p r hpq hp => ?_⟩
    exact (failureAt?_eq_none_iff_builds (p, r)).1
      (hbefore (p, r) ((Matrix.mem_before_iff hsplit).2 ⟨hp, hpq⟩))
  · rintro ⟨q, r, source, hq, hsource, rfl, hbefore⟩
    obtain ⟨before, after, hsplit⟩ :=
      List.append_of_mem (Matrix.mem_positioned_iff (q := (q, r)).2 hq)
    refine ⟨before, (q, r), after, hsplit, ?_, fun p hp => ?_⟩
    · rw [failureAt?, hsource]
      rfl
    · obtain ⟨hp, hpq⟩ := (Matrix.mem_before_iff hsplit).1 hp
      exact (failureAt?_eq_none_iff_builds p).2 (hbefore p.1 p.2 hpq hp)

/-- A pipeline is assembled exactly if all records can be built. -/
theorem exists_assemble_iff_buildable :
    (∃ p, (assemble m version template).outcome = .ok p) ↔ m.Buildable version := by
  rw [← failureOf?_eq_none_iff, failureOf?_assemble, List.findSome?_eq_none_iff]
  constructor
  · exact fun h q r hq =>
      (failureAt?_eq_none_iff_builds (q, r)).1 (h (q, r) (Matrix.mem_positioned_iff.2 hq))
  · exact fun h q hq =>
      (failureAt?_eq_none_iff_builds q).2 (h q.1 q.2 (Matrix.mem_positioned_iff.1 hq))

/-- **Assembly loses, repeats and moves nothing.**  If every record can be built, the pipeline
arranges the matrix and has the given template; otherwise the error is that of the first record that
cannot be built, with its position. -/
theorem assemble_arranges (m : Matrix) (version : ContainerVersion) (template : Template) :
    (m.Buildable version → ∃ p, (assemble m version template).outcome = .ok p ∧
        p.Arranges m version ∧ p.template = template) ∧
      (¬m.Buildable version → ∃ q r e, m.at? q = some r ∧
        (r.job version (stageLabel q.wave)).outcome = .error e ∧
        (assemble m version template).outcome = .error (.job q.wave q.index e) ∧
        ∀ q' r', q'.Before q → m.at? q' = some r' →
          ∃ j, (r'.job version (stageLabel q'.wave)).outcome = .ok j) := by
  constructor
  · intro h
    obtain ⟨p, hp⟩ := exists_assemble_iff_buildable.2 h
    exact ⟨p, hp, arranges_of_assemble hp, (assemble_outcome_iff.1 hp).2.2⟩
  · intro h
    cases hassemble : (assemble m version template).outcome with
    | ok p => exact absurd (exists_assemble_iff_buildable.1 ⟨p, hassemble⟩) h
    | error e =>
      obtain ⟨q, r, source, hq, hsource, rfl, hbefore⟩ := assemble_error_iff.1 hassemble
      exact ⟨q, r, source, hq, hsource, rfl, hbefore⟩

end Pipeline

end JobMatrix
