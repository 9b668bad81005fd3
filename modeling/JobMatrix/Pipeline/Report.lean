import JobMatrix.Pipeline.Verification
import JobMatrix.Text.Json

/-!
# Reports as texts

A report is shown as one line for each finding and a verdict, or as JSON.
-/

set_option autoImplicit false

namespace JobMatrix

def Position.json (p : Position) : Json :=
  .object [("wave", .number p.wave), ("index", .number p.index)]

def Finding.json : Finding → Json
  | duplicateName name first second =>
    .object [("kind", .text "duplicate_name"), ("name", .text name), ("first", first.json),
      ("second", second.json)]
  | conflictingBackends position =>
    .object [("kind", .text "conflicting_gpu_backends"), ("position", position.json)]
  | malformed position reason =>
    .object [("kind", .text "malformed"), ("position", position.json),
      ("reason", .text reason.message)]

namespace VerifyReport

def json (r : VerifyReport) : Json :=
  .object [("jobs_checked", .number r.jobsChecked), ("findings", .list (r.findings.map (·.json)))]

def verdict (r : VerifyReport) : String :=
  if r.passed then s!"OK: {r.jobsChecked} jobs checked"
  else s!"FAILED: {r.findings.length} finding(s) in {r.jobsChecked} jobs"

/-- The findings, one to a line, and the verdict. -/
def text (r : VerifyReport) : String :=
  String.join (r.findings.map fun f => s!"  {f.text}\n") ++ r.verdict

end VerifyReport

end JobMatrix
