import JobMatrix.Files.Path
import JobMatrix.Gitlab.Document
import JobMatrix.Text.Cut

/-!
# Writing pipeline files

A pipeline file is first written next to its place and then moved there, so that a run that fails
leaves no half of a document.  `write` puts the text of a pipeline into a buffer instead.
-/

set_option autoImplicit false

namespace JobMatrix

/-- What a run needs from outside: files, and somebody to report to. -/
structure Host (m : Type → Type) where
  files : FileAccess m
  report : LogEvent → m Unit

/-- Reports the events of a computation and gives its result. -/
def Host.run {m : Type → Type} [Monad m] {ε α : Type} (host : Host m) (x : Logged ε α) :
    m (Except ε α) := do
  x.events.forM host.report
  pure x.outcome

namespace Gitlab

/-- Writes a pipeline into a buffer that takes `limit` bytes, and gives what the buffer holds
then. -/
def write (p : Pipeline) (limit : Nat) : Except PipelineError Unit × String :=
  match render p with
  | .error e => (.error e, "")
  | .ok text =>
    if text.utf8ByteSize ≤ limit then (.ok (), text)
    else (.error .outputFull, String.ofList (Text.cutBytes limit text.toList))

/-- Writes a text next to its place and moves it there; what is left if that fails is removed. -/
def replaceFile {m : Type → Type} [Monad m] (files : FileAccess m) (path text : String) :
    m (Except FileError Unit) := do
  let temporary := Path.temporarySibling path
  let result ← match ← files.writeText temporary text with
    | .ok () => files.rename temporary path
    | .error e => pure (.error e)
  match result with
  | .ok () => pure (.ok ())
  | .error e =>
    let _ ← files.remove temporary
    pure (.error e)

/-- The event of a pipeline that has been saved. -/
def savedEvent (p : Pipeline) (path : String) : LogEvent :=
  { level := .info, origin := .output, message := "wrote GitLab CI pipeline",
    fields := [("path", .shown path), ("stages", .ofNat p.stages.length),
      ("jobs", .ofNat p.jobCount)] }

/-- Saves a pipeline in a file. -/
def save {m : Type → Type} [Monad m] (host : Host m) (p : Pipeline) (path : String) :
    m (Except PipelineError Unit) := do
  match render p with
  | .error e => pure (.error e)
  | .ok text =>
    match ← replaceFile host.files path text with
    | .error e => pure (.error (.output path e))
    | .ok () =>
      host.report (savedEvent p path)
      pure (.ok ())

end Gitlab

end JobMatrix
