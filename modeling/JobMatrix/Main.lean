import JobMatrix.Cli.Program

/-!
# The command line program

The outer layer: the files and streams of the machine.
-/

set_option autoImplicit false

namespace JobMatrix.Machine

/-- The failure of an operation of the machine. -/
def fileError (e : IO.Error) : FileError :=
  match e with
  | .noFileOrDirectory _ _ _ => .notFound
  | .inappropriateType _ 20 _ => .notDirectory
  | .inappropriateType _ 21 _ => .isDirectory
  | .resourceBusy _ _ => .busy
  | .invalidArgument _ 36 _ => .nameTooLong
  | e => .other (toString e)

/-- Carries out an operation and catches its failure. -/
def attempt {α : Type} (path : String) (x : IO α) : IO (Except FileError α) := do
  if path.toList.contains '\x00' then pure (.error .nulInName)
  else
    try
      pure (.ok (← x))
    catch e => pure (.error (fileError e))

/-- Reads a file as text. -/
def readText (path : String) : IO (Except FileError String) := do
  match ← attempt path (IO.FS.readBinFile path) with
  | .error e => pure (.error e)
  | .ok bytes =>
    match String.fromUTF8? bytes with
    | some text => pure (.ok text)
    | none => pure (.error .notText)

/-- The files of the machine. -/
def files : FileAccess IO where
  readText := readText
  writeText path text := attempt path (IO.FS.writeFile path text)
  rename source path := attempt path (IO.FS.rename source path)
  remove path := attempt path (IO.FS.removeFile path)

/-- The streams of the process. -/
def console : Console IO where
  out text := do
    (← IO.getStdout).putStr text
  err text := do
    (← IO.getStderr).putStr text

end JobMatrix.Machine

/-- Runs the program on its arguments. -/
def main (arguments : List String) : IO UInt32 := do
  let settings : JobMatrix.Settings :=
    { logFilter := ← IO.getEnv "RUST_LOG"
      verbose := (← IO.getEnv "ALPAKA_JOBGEN_VERBOSE").isSome }
  JobMatrix.Program.run JobMatrix.Machine.files JobMatrix.Machine.console settings arguments
