import JobMatrix.Job.ContainerVersion

/-!
# Command line arguments

A command line is a command with its arguments, and options that may stand on either side of the
command.  `CommandLine.parse` reads arguments from left to right.  An option without `=` waits for
its value, which is checked when the next argument settles it; so of two faults the first to be
settled counts, and a request for help counts as a fault.
-/

set_option autoImplicit false

namespace JobMatrix

/-- Shells with completions. -/
inductive Shell
  | bash
  | zsh
  | fish
  | powerShell
deriving DecidableEq, Repr

def Shell.ofName? (name : String) : Option Shell :=
  [("bash", bash), ("zsh", zsh), ("fish", fish), ("power-shell", powerShell)].lookup name

inductive Command
  | generate (matrix : String) (containerVersion : Option ContainerVersion)
      (jobBase output : Option String) (skipVerify : Bool)
  | verify (matrix : String) (json : Bool)
  | completions (shell : Shell) (output : Option String)

/-- What is asked for on a command line. -/
structure CommandLine where
  config : Option String
  logLevel : Option String
  command : Command

/-- Why a command line is not carried out. -/
inductive Refusal
  | usage
  | help
  | version
deriving DecidableEq, Repr

namespace CommandLine

/-! ## What a command takes -/

/-- Options, flags and positional arguments. -/
inductive Slot
  | config
  | logLevel
  | containerVersion
  | jobBase
  | output
  | skipVerify
  | json
  | matrix
  | shell
  | help
  | version
deriving DecidableEq, Repr

namespace Slot

def takesValue : Slot → Bool
  | skipVerify | json | help | version => false
  | _ => true

/-- The value can be read.  A path must not be empty. -/
def admits : Slot → String → Bool
  | logLevel, _ => true
  | containerVersion, s => (ContainerVersion.ofText s).toBool
  | shell, s => (Shell.ofName? s).isSome
  | _, s => !s.isEmpty

end Slot

/-- The program without a command, or a command. -/
inductive Scope
  | program
  | generate
  | verify
  | completions
deriving DecidableEq, Repr

namespace Scope

def longOptions : Scope → List (String × Slot)
  | program => [("config", .config), ("log-level", .logLevel), ("help", .help),
      ("version", .version)]
  | generate => [("config", .config), ("log-level", .logLevel), ("help", .help),
      ("container-version", .containerVersion), ("job-base", .jobBase), ("output", .output),
      ("skip-verify", .skipVerify)]
  | verify => [("config", .config), ("log-level", .logLevel), ("help", .help), ("json", .json)]
  | completions => [("config", .config), ("log-level", .logLevel), ("help", .help),
      ("output", .output)]

def shortOptions : Scope → List (Char × Slot)
  | program => [('c', .config), ('h', .help), ('V', .version)]
  | generate => [('c', .config), ('h', .help), ('o', .output)]
  | verify => [('c', .config), ('h', .help)]
  | completions => [('c', .config), ('h', .help), ('o', .output)]

/-- The positional argument of a command. -/
def positional? : Scope → Option Slot
  | program => none
  | generate | verify => some .matrix
  | completions => some .shell

def ofName? (name : String) : Option Scope :=
  [("generate", generate), ("verify", verify), ("completions", completions)].lookup name

end Scope

/-! ## Reading arguments -/

/-- What has been read of a scope. -/
structure Progress where
  given : List (Slot × String) := []
  /-- The last argument, which has not been settled. -/
  pending : Option (Slot × Option String) := none
  /-- The positional argument has been read. -/
  filled : Bool := false

namespace Progress

def value? (p : Progress) (s : Slot) : Option String := p.given.lookup s

/-- Takes a value, if it is the first one and can be read. -/
def give (p : Progress) (s : Slot) (value : String) : Except Refusal Progress :=
  if (p.value? s).isSome || !s.admits value then .error .usage
  else .ok { p with given := (s, value) :: p.given }

/-- Settles the last argument. -/
def settle (p : Progress) : Except Refusal Progress :=
  match p.pending with
  | none => .ok p
  | some (_, none) => .error .usage
  | some (s, some value) => { p with pending := none }.give s value

/-- Reads an option that takes a value, which may be attached. -/
def readOption (p : Progress) (s : Slot) (attached : Option String) : Except Refusal Progress := do
  let p ← p.settle
  match attached with
  | some value => p.give s value
  | none => .ok { p with pending := some (s, none) }

/-- Reads an option that takes no value. -/
def readFlag (p : Progress) (s : Slot) : Except Refusal Progress := do
  let p ← p.settle
  match s with
  | .help => .error .help
  | .version => .error .version
  | s => if (p.value? s).isSome then .error .usage else .ok { p with given := (s, "") :: p.given }

/-- Reads the text behind `--`. -/
def readLong (scope : Scope) (p : Progress) (cs : List Char) : Except Refusal Progress :=
  let name := String.ofList (cs.takeWhile (· != '='))
  let attached := match cs.dropWhile (· != '=') with
    | _ :: value => some (String.ofList value)
    | [] => none
  match scope.longOptions.lookup name with
  | none => .error .usage
  | some s =>
    if s.takesValue then p.readOption s attached
    else if attached.isSome then .error .usage
    else p.readFlag s

/-- Reads the letters behind `-`.  What follows the letter of an option is its value. -/
def readShort (scope : Scope) : Progress → List Char → Except Refusal Progress
  | p, [] => .ok p
  | p, c :: rest =>
    match scope.shortOptions.lookup c with
    | none => .error .usage
    | some s =>
      if s.takesValue then
        let value := match rest with
          | '=' :: value => some (String.ofList value)
          | [] => none
          | value => some (String.ofList value)
        p.readOption s value
      else (p.readFlag s).bind fun p => readShort scope p rest

/-- The last argument waits for its value. -/
def waiting (p : Progress) : Bool := p.pending.any (·.2.isNone)

/-- Reads a positional argument. -/
def readPositional (scope : Scope) (p : Progress) (value : String) : Except Refusal Progress := do
  match scope.positional?, p.filled with
  | some s, false =>
    let p ← p.settle
    .ok { p with pending := some (s, some value), filled := true }
  | _, _ => .error .usage

/-- Reads an argument that is not behind `--`. -/
def readArgument (scope : Scope) (p : Progress) (argument : String) : Except Refusal Progress :=
  match argument.toList with
  | '-' :: '-' :: cs => p.readLong scope cs
  | '-' :: c :: cs => p.readShort scope (c :: cs)
  | _ =>
    match p.pending with
    | some (s, none) => .ok { p with pending := some (s, some argument) }
    | _ => p.readPositional scope argument

end Progress

/-- Reads the arguments of a command. -/
def readCommand (scope : Scope) : Progress → List String → Except Refusal Progress
  | p, [] => p.settle
  | p, "--" :: rest => do (← rest.foldlM (Progress.readPositional scope) p).settle
  | p, argument :: rest => do readCommand scope (← p.readArgument scope argument) rest

/-! ## The meaning of what has been read -/

/-- A value that has been checked when it was read. -/
def containerVersion? (p : Progress) : Option ContainerVersion :=
  (p.value? .containerVersion).bind fun s => (ContainerVersion.ofText s).toOption

def commandOf (scope : Scope) (p : Progress) : Except Refusal Command :=
  match scope, p.value? .matrix, (p.value? .shell).bind Shell.ofName? with
  | .generate, some matrix, _ =>
    .ok (.generate matrix (containerVersion? p) (p.value? .jobBase) (p.value? .output)
      (p.value? .skipVerify).isSome)
  | .verify, some matrix, _ => .ok (.verify matrix (p.value? .json).isSome)
  | .completions, _, some shell => .ok (.completions shell (p.value? .output))
  | _, _, _ => .error .usage

/-- Asks for help on the program or on one command. -/
def helpRequest : List String → Refusal
  | [] => .help
  | [name] => if name = "help" || (Scope.ofName? name).isSome then .help else .usage
  | _ => .usage

/-- Reads the arguments from the first one of the program on.  An option behind the command counts
more than one in front of it. -/
def readProgram : Progress → List String → Except Refusal CommandLine
  | _, [] => .error .usage
  | _, "--" :: _ => .error .usage
  | p, argument :: rest =>
    if argument = "help" && !p.waiting then .error (helpRequest rest)
    else
      match if p.waiting then none else Scope.ofName? argument with
      | some scope => do
        let inner ← readCommand scope {} rest
        let command ← commandOf scope inner
        let outer ← p.settle
        .ok
          { config := inner.value? .config <|> outer.value? .config
            logLevel := inner.value? .logLevel <|> outer.value? .logLevel
            command }
      | none => do readProgram (← p.readArgument .program argument) rest

/-- Reads a command line. -/
def parse (arguments : List String) : Except Refusal CommandLine := readProgram {} arguments

end CommandLine

end JobMatrix
