import Reckoner.Answer
import Reckoner.Command.Line
import Reckoner.Settings

/-!
# Running a Command

What each command prints, and the code that the program ends with: zero if all went well, one if
the settings or the expression are at fault, and two if the program cannot be used so.
-/

namespace Reckoner.Command

/-- What the program prints, and the code it ends with. -/
structure Output where
  code : Nat := 0
  text : String := ""
  errors : String := ""
deriving DecidableEq, Repr

/-- What comes of a command line. -/
inductive Outcome where
  /-- The program ends. -/
  | done (output : Output)
  /-- The service runs. -/
  | serving (settings : Settings)
deriving DecidableEq, Repr

namespace Output

def lines (texts : List String) : Output := { text := String.join (texts.map (· ++ "\n")) }

/-- A message, and the code for a fault. -/
def failed (message : String) : Output := { code := 1, errors := message ++ "\n" }

def misused : Output := { code := 2, errors := "see --help\n" }

end Output

/-! ## Commands -/

def versionText : String := "calcd 0.1.0"

def helpText : String :=
  "Usage: calcd [--config FILE] eval EXPR [--json] | symbols | serve [--bind ADDRESS]"

/-- What working out an expression prints. -/
def evalOutput (expression : String) (json : Bool) (limits : Limits) : Output :=
  let calculation := Calculation.ofText expression limits
  let code := if calculation.isSuccess then 0 else 1
  if json then { Output.lines [calculation.answer.toText] with code := code }
  else
    match calculation.outcome with
    | .ok result => Output.lines [result.text]
    | .error fault => Output.failed ("error: " ++ fault.message)

def Action.run (settings : Settings) : Action → Outcome
  | eval expression json => .done (evalOutput expression json settings.limits)
  | symbols => .done (Output.lines Vocabulary.standard.names)
  | serve bind => .serving { settings with bind := bind.getD settings.bind }

/-! ## Settings files -/

/-- The usual settings file, in the folder for the settings of the user: the one that the
environment names by an absolute path, or else the one in the home folder. -/
def usualSettings (named home : Option String) : String :=
  let folder := (named.filter (·.startsWith "/")).getD (home.getD "" ++ "/.config")
  folder ++ "/calcd/config.toml"

def Line.settings? : Line → Option String
  | run settings _ => settings
  | _ => none

/-! ## The whole line -/

/-- What comes of a command line, with the files there are and the usual settings file. -/
def Line.outcome (files : Settings.Files) (usual : String) : Line → Outcome
  | run asked action =>
    match Settings.load files usual asked with
    | .ok settings => action.run settings
    | .error fault => .done (Output.failed ("Error: " ++ fault.context))
  | help => .done (Output.lines [helpText])
  | version => .done (Output.lines [versionText])
  | misuse => .done Output.misused

end Reckoner.Command
