import JobMatrix.Job.Image
import JobMatrix.Job.Naming
import JobMatrix.Log
import JobMatrix.Pipeline.Matrix

/-!
# Verification of a matrix

`Matrix.verify` looks for what would make a pipeline wrong: two jobs of one name, two accelerators
in one job, and records that no job can be derived from.
-/

set_option autoImplicit false

namespace JobMatrix

inductive Finding
  /-- A later record has the name of an earlier one. -/
  | duplicateName (name : String) (first second : Position)
  /-- CUDA and HIP are both enabled. -/
  | conflictingBackends (position : Position)
  /-- No job can be derived from the record. -/
  | malformed (position : Position) (reason : JobError)
deriving DecidableEq, Repr

def Finding.text : Finding → String
  | duplicateName name first second =>
    s!"{second.text}: job name '{name}' already used by {first.text}"
  | conflictingBackends position => s!"{position.text}: CUDA and HIP backend are both enabled"
  | malformed position reason => s!"{position.text}: {reason.message}"

structure VerifyReport where
  jobsChecked : Nat
  findings : List Finding
deriving DecidableEq, Repr

def VerifyReport.passed (r : VerifyReport) : Bool := r.findings.isEmpty

namespace Record

/-- What image and variables need, and the name does not. -/
def checkVersions (r : Record) : Except JobError Unit := do
  let _ ← r.require .ubuntu
  let _ ← r.require .cmake
  let _ ← r.require .boost
  match r.enabled? .gpuCuda with
  | some cuda => (cudaTag cuda).map fun _ => ()
  | none => .ok ()

/-- What is wrong with a record by itself, apart from its name. -/
def findingsAt (r : Record) (p : Position) : List Finding :=
  (if (r.enabled? .gpuCuda).isSome && (r.enabled? .gpuHip).isSome then [.conflictingBackends p]
    else [])
  ++ match r.checkVersions with
    | .ok () => []
    | .error e => [.malformed p e]

end Record

/-- What is known behind some records: their names, each with the first record that has it, their
number, and what was found on them. -/
structure Check where
  seen : List (String × Position) := []
  jobsChecked : Nat := 0
  findings : List Finding := []

namespace Check

/-- Adds a finding. -/
def find (c : Check) (f : Finding) : Check := { c with findings := c.findings ++ [f] }

/-- Checks one more record. -/
def next (c : Check) (q : Position × Record) : Check :=
  let (p, r) := q
  let c := { c with jobsChecked := c.jobsChecked + 1, findings := c.findings ++ r.findingsAt p }
  match r.jobName with
  | .error e => c.find (.malformed p e)
  | .ok name =>
    match c.seen.lookup name with
    | some first => c.find (.duplicateName name first p)
    | none => { c with seen := (name, p) :: c.seen }

end Check

/-- The report on a matrix. -/
def Matrix.report (m : Matrix) : VerifyReport :=
  let c : Check := m.positioned.foldl Check.next {}
  { jobsChecked := c.jobsChecked, findings := c.findings }

/-- The events of a report: a warning for each finding and the verdict. -/
def VerifyReport.events (r : VerifyReport) : List LogEvent :=
  r.findings.map (fun f =>
    { level := .warn, origin := .verification, message := s!"verification: {f.text}",
      fields := [] })
  ++ if r.passed then
    [{ level := .info, origin := .verification, message := "verification passed",
       fields := [("jobs", .ofNat r.jobsChecked)] }]
  else
    [{ level := .warn, origin := .verification, message := "verification failed",
       fields := [("jobs", .ofNat r.jobsChecked), ("findings", .ofNat r.findings.length)] }]

/-- Verifies a matrix and reports on it. -/
def Matrix.verify (m : Matrix) : Traced VerifyReport :=
  let r := Matrix.report m
  ⟨r, r.events⟩

end JobMatrix
