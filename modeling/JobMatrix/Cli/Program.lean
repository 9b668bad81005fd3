import JobMatrix.Cli.Completions
import JobMatrix.Cli.LogFilter
import JobMatrix.Cli.LogLine
import JobMatrix.Config
import JobMatrix.Generation
import JobMatrix.Pipeline.Report

/-!
# The program

`Program.run` carries out a command line: it reads the configuration, sets up the log, runs the
command, and says on its error output what went wrong.
-/

set_option autoImplicit false

namespace JobMatrix

/-- Where the program writes. -/
structure Console (m : Type → Type) where
  out : String → m Unit
  err : String → m Unit

/-- What the environment of the process says. -/
structure Settings where
  /-- A log filter that comes before all others. -/
  logFilter : Option String
  /-- Failures are shown with a list of their causes. -/
  verbose : Bool

inductive ProgramError
  | config (e : ConfigError)
  | noContainerVersion
  | pipeline (e : PipelineError)
  | generate (e : GenerateError)
  | verificationFailed
  | completions (path : String) (e : FileError)

namespace ProgramError

/-- The failure and its causes. -/
def chain : ProgramError → List String
  | config e => [e.message]
  | noContainerVersion =>
    ["no container version given: pass --container-version or set it in the config"]
  | pipeline e => e.chain
  | generate e => e.chain
  | verificationFailed => ["job matrix verification failed"]
  | completions path e => [s!"Failed to write completions to: {path}", e.message]

/-- The failure and its causes on one line. -/
def line (e : ProgramError) : String := ": ".intercalate e.chain

/-- Puts `first` in front of a text and `others` in front of its further lines. -/
def indented (first others text : String) : String :=
  first ++ ("\n" ++ others).intercalate ((text.toList.splitOn '\n').map String.ofList)

/-- The causes, numbered from the given one. -/
def numbered : Nat → List String → String
  | _, [] => ""
  | i, cause :: rest =>
    let number := toString i
    let first := String.ofList (List.replicate (5 - number.length) ' ') ++ number ++ ": "
    "\n" ++ indented first "       " cause ++ numbered (i + 1) rest

/-- The failure with its causes below it. -/
def report (e : ProgramError) : String :=
  match e.chain with
  | [] => ""
  | [top] => top
  | [top, cause] => top ++ "\n\nCaused by:\n" ++ indented "    " "    " cause
  | top :: causes => top ++ "\n\nCaused by:" ++ numbered 0 causes

end ProgramError

namespace Program

variable {m : Type → Type} [Monad m]

def version : String := "0.1.0"

def usageLines : List String := [
  s!"Usage: {programName} [OPTIONS] <COMMAND>",
  "",
  "Commands:",
  "  generate <MATRIX>     Write the GitLab CI jobs for a job matrix",
  "  verify <MATRIX>       Check a job matrix without generating",
  "  completions <SHELL>   Generate shell completions",
  "  help [COMMAND]        Print this message",
  "",
  "Options:",
  "  -c, --config <CONFIG>      Configuration file",
  "      --log-level <FILTER>   Log filter",
  "  -h, --help                 Print this message",
  "  -V, --version              Print the version",
  "",
  "Options of generate:",
  "      --container-version <VERSION>",
  "      --job-base <FILE>",
  "  -o, --output <FILE>",
  "      --skip-verify",
  "",
  "Options of verify:",
  "      --json",
  "",
  "Options of completions:",
  "  -o, --output <FILE>"]

def usage : String := String.join (usageLines.map (· ++ "\n"))

/-! ## Logging -/

/-- The filter of a run: that of the environment if it can be read, or else the given one, with
warnings on its faults. -/
def logFilter (settings : Settings) (filter : String) : LogFilter × List String :=
  match settings.logFilter.bind LogFilter.parse? with
  | some f => (f, [])
  | none => LogFilter.parseLenient filter

/-- The host of a run, which writes the events that the filter admits. -/
def host (files : FileAccess m) (console : Console m) (filter : LogFilter) : Host m where
  files := files
  report e := if filter.admits e then console.err (e.line ++ "\n") else pure ()

/-! ## Commands -/

/-- Reads the configuration. -/
def loadConfig (files : FileAccess m) (path : Option String) : m (Except ConfigError Config) := do
  match path with
  | none => pure (.ok {})
  | some path =>
    match ← files.load Config.ofYaml path with
    | .ok config => pure (.ok config)
    | .error (.access e) => pure (.error (.read path e))
    | .error (.content e) => pure (.error (.parse path e))

/-- Carries out a command.  What the command line leaves open comes from the configuration. -/
def execute (host : Host m) (console : Console m) (config : Config) :
    Command → m (Except ProgramError Unit)
  | .generate matrix containerVersion jobBase output skipVerify => do
    match containerVersion <|> config.containerVersion with
    | none => pure (.error .noContainerVersion)
    | some containerVersion =>
      let options : GenerateOptions :=
        { matrix, containerVersion, jobBase := jobBase.getD config.jobBase,
          output := output.getD config.output, verify := config.verify && !skipVerify }
      match ← JobMatrix.generate host options with
      | .error e => pure (.error (.generate e))
      | .ok summary =>
        console.out s!"Wrote {summary.jobs} jobs in {summary.stages} stages to {options.output}\n"
        pure (.ok ())
  | .verify path json => do
    match ← Matrix.load host path with
    | .error e => pure (.error (.pipeline e))
    | .ok matrix =>
      let traced := matrix.verify
      traced.events.forM host.report
      let report := traced.value
      console.out ((if json then report.json.render else report.text) ++ "\n")
      pure (if report.passed then .ok () else .error .verificationFailed)
  | .completions shell output => do
    match output with
    | none =>
      console.out (shell.script ++ "\n")
      pure (.ok ())
    | some path =>
      pure ((← host.files.writeText path shell.script).mapError (.completions path))

/-- Reads the configuration, sets up the log and carries out the command. -/
def perform (files : FileAccess m) (console : Console m) (settings : Settings) (c : CommandLine) :
    m (Except ProgramError Unit) := do
  match ← loadConfig files c.config with
  | .error e => pure (.error (.config e))
  | .ok config =>
    let (filter, warnings) := logFilter settings (c.logLevel.getD config.logLevel)
    warnings.forM fun w => console.err (w ++ "\n")
    execute (host files console filter) console config c.command

/-- Runs the program and gives its exit code. -/
def run (files : FileAccess m) (console : Console m) (settings : Settings)
    (arguments : List String) : m UInt32 := do
  match CommandLine.parse arguments with
  | .error .usage =>
    console.err usage
    pure 2
  | .error .help =>
    console.out usage
    pure 0
  | .error .version =>
    console.out s!"{programName} {version}\n"
    pure 0
  | .ok c =>
    match ← perform files console settings c with
    | .ok () => pure 0
    | .error e =>
      console.err s!"Error: {e.line}\n"
      if settings.verbose then console.err (e.report ++ "\n")
      pure 1

end Program

end JobMatrix
