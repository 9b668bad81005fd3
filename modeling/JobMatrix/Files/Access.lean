/-!
# Access to files

The few operations on files that a run needs, and the ways they fail.  `FileAccess m` leaves open
what carries them out: the file system of the machine, or a model of one.
-/

set_option autoImplicit false

namespace JobMatrix

inductive FileError
  | notFound
  | notDirectory
  | isDirectory
  | busy
  | nameTooLong
  | nulInName
  /-- The content of a file is no text. -/
  | notText
  | other (message : String)
deriving DecidableEq, Repr

def FileError.message : FileError → String
  | notFound => "No such file or directory (os error 2)"
  | notDirectory => "Not a directory (os error 20)"
  | isDirectory => "Is a directory (os error 21)"
  | busy => "Device or resource busy (os error 16)"
  | nameTooLong => "File name too long (os error 36)"
  | nulInName => "file name contained an unexpected NUL byte"
  | notText => "stream did not contain valid UTF-8"
  | other message => message

/-- The operations on files, by path. -/
structure FileAccess (m : Type → Type) where
  readText : String → m (Except FileError String)
  writeText : String → String → m (Except FileError Unit)
  /-- Moves a file, in place of the one at the target. -/
  rename : String → String → m (Except FileError Unit)
  remove : String → m (Except FileError Unit)

end JobMatrix
