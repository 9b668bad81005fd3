import JobMatrix.Text.Upper

/-!
# Names of environment variables
-/

set_option autoImplicit false

namespace JobMatrix.Text

/-- A parameter name in the shape of an environment variable: upper case, with `_` for `-`. -/
def environmentName (name : String) : String :=
  String.ofList ((upper name.toList).map fun c => if c = '-' then '_' else c)

end JobMatrix.Text
