import JobMatrix.Job.Category

/-!
# What can be wrong with a record
-/

set_option autoImplicit false

namespace JobMatrix

/-- Why a record cannot be read, or no job can be derived from it. -/
inductive JobError
  /-- A rule needs a category that the record does not have. -/
  | missingCategory (category : Category)
  /-- The record has a key that is no category. -/
  | unknownCategory (key : String)
  /-- A rule needs the number that a version stands for, and it stands for none. -/
  | invalidVersion (category : Category) (version : String)
deriving DecidableEq, Repr

def JobError.message : JobError → String
  | missingCategory category => s!"Job record is missing required category '{category.key}'"
  | unknownCategory key => s!"Unknown parameter category '{key}'"
  | invalidVersion category version =>
    s!"Invalid version '{version}' for category '{category.key}'"

end JobMatrix
