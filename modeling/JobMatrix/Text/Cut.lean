/-!
# Cut texts

A text that is cut after a number of bytes, as it is shown.
-/

set_option autoImplicit false

namespace JobMatrix.Text

/-- The characters in the first `limit` bytes.  A character that the cut goes through is shown as
a replacement mark. -/
def cutBytes : Nat → List Char → List Char
  | _, [] => []
  | limit, c :: rest =>
    if c.utf8Size ≤ limit then c :: cutBytes (limit - c.utf8Size) rest
    else if 0 < limit then ['\ufffd']
    else []

end JobMatrix.Text
