/-!
# Paths

A path is a text with parts divided by slashes.  Empty parts, and parts that are `.` behind the
first, say nothing; `..` is the directory above.
-/

set_option autoImplicit false

namespace JobMatrix.Path

/-- The parts between the slashes, the empty ones included. -/
def parts (path : String) : List String :=
  (path.toList.splitOn '/').map String.ofList

def isAbsolute (path : String) : Bool := path.toList.head? == some '/'

/-- The path without slashes and `/.` at its end. -/
def withoutTrail (path : List Char) : List Char :=
  let rec drop : List Char → List Char
    | '/' :: rest => drop rest
    | '.' :: '/' :: rest => drop ('/' :: rest)
    | rest => rest
  termination_by cs => cs.length
  (drop path.reverse).reverse

/-- What stands up to the last slash, and the name behind it.  A path that ends in `..` or has no
parts but `.` has no name. -/
def split (path : String) : String × Option String :=
  let cs := withoutTrail path.toList
  let name := (cs.reverse.takeWhile (· != '/')).reverse
  let directory := String.ofList (cs.take (cs.length - name.length))
  if name = [] ∨ name = ['.'] ∨ name = ['.', '.'] then (path, none)
  else (directory, some (String.ofList name))

/-- The file next to `path` that its content is written to before it is moved into place. -/
def temporarySibling (path : String) : String :=
  match split path with
  | (directory, some name) => directory ++ "." ++ name ++ ".tmp"
  | (_, none) =>
    let slash := if path.isEmpty || path.endsWith "/" then "" else "/"
    path ++ slash ++ ".pipeline.yml.tmp"

end JobMatrix.Path
