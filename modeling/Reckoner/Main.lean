import Reckoner.Command.Run

/-!
# The Program

Reads the settings files that may be asked for, runs the command line, prints what comes of it and
ends with its code.  The service is a function of requests to replies; this program has no listener
for it, and says so.
-/

namespace Reckoner.Command

/-- The text of a file, if it can be read. -/
def readFile? (path : String) : IO (Option String) := do
  try
    let text ← IO.FS.readFile path
    pure (some text)
  catch _ => pure none

end Reckoner.Command

open Reckoner.Command in
/-- The program. -/
def main (arguments : List String) : IO UInt32 := do
  let line := Line.ofArguments arguments
  let usual := usualSettings (← IO.getEnv "XDG_CONFIG_HOME") (← IO.getEnv "HOME")
  let path := line.settings?.getD usual
  let text ← readFile? path
  match line.outcome (fun asked => if asked = path then text else none) usual with
  | .done output =>
    IO.print output.text
    IO.eprint output.errors
    pure output.code.toUInt32
  | .serving settings =>
    IO.eprintln ("no listener for " ++ settings.bind.text)
    pure 1
