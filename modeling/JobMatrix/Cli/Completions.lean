import JobMatrix.Cli.Arguments

/-!
# Shell completions

Scripts that make a shell complete the commands of the program and their options.
-/

set_option autoImplicit false

namespace JobMatrix

/-- The name the program is called by. -/
def programName : String := "alpaka-jobgen"

namespace Shell

open CommandLine (Scope)

/-- The words that can follow the program, or a command. -/
def words (scope : Scope) : List String :=
  (if scope = .program then ["generate", "verify", "completions", "help"] else [])
    ++ scope.longOptions.map fun (name, _) => "--" ++ name

/-- The words of the program and of all commands. -/
def allWords : List String :=
  ([Scope.program, .generate, .verify, .completions].flatMap words).eraseDups

def commands : List (String × Scope) :=
  [("generate", .generate), ("verify", .verify), ("completions", .completions)]

/-- A line of a script for `fish`, for a word behind a command. -/
def fishLine (condition word : String) : String :=
  s!"complete -c {programName} -n '{condition}' -f -a '{word}'\n"

/-- The script for a shell. -/
def script : Shell → String
  | bash => "complete -W '" ++ " ".intercalate allWords ++ s!"' {programName}\n"
  | zsh => s!"#compdef {programName}\n" ++ "compadd -- " ++ " ".intercalate allWords ++ "\n"
  | fish =>
    String.join ((words .program).map (fishLine "__fish_use_subcommand"))
      ++ String.join (commands.flatMap fun (name, scope) =>
        (words scope).map (fishLine ("__fish_seen_subcommand_from " ++ name)))
  | powerShell =>
    s!"Register-ArgumentCompleter -Native -CommandName '{programName}' -ScriptBlock \x7b\n"
      ++ "    param($wordToComplete)\n    @("
      ++ ", ".intercalate (allWords.map fun w => "'" ++ w ++ "'")
      ++ ") | Where-Object \x7b $_ -like \"$wordToComplete*\" \x7d\n\x7d\n"

end Shell

end JobMatrix
