import Reckoner.Network.SocketAddress

/-!
# Command Lines

A command line names a command and gives its arguments and options.  An argument that begins with a
dash, a lone dash apart, is a switch; after two dashes alone, everything is an operand.  A switch
with a value takes it after an equals sign or from the next argument.  No switch may be given twice
in one place, but the settings file may be named before the command and after it, and then the
latter counts.
-/

namespace Reckoner.Command

/-- A command with its arguments. -/
inductive Action where
  /-- Works out an expression, and prints the result or, for `json`, the answer. -/
  | eval (expression : String) (json : Bool)
  /-- Lists the names of the vocabulary. -/
  | symbols
  /-- Runs the service, perhaps at another address than the settings say. -/
  | serve (bind : Option SocketAddress)
deriving DecidableEq, Repr

/-- What a command line asks for. -/
inductive Line where
  /-- A command, under the settings of a file if one is named. -/
  | run (settings : Option String) (action : Action)
  /-- How the program is used. -/
  | help
  /-- Which version of the program this is. -/
  | version
  /-- The program cannot be used so. -/
  | misuse
deriving DecidableEq, Repr

/-! ## Switches -/

/-- The argument begins with a dash, and is more than that. -/
def isSwitch (argument : String) : Bool :=
  match argument.toList with
  | '-' :: _ :: _ => true
  | _ => false

/-- The text that a switch asks for instead of everything else: how the program is used or, if
`whole` says that no command has been named, its version.  A single dash joins one-letter switches,
of which the first decides. -/
def information? (whole : Bool) (argument : String) : Option Line :=
  match argument.toList with
  | '-' :: 'h' :: _ => some .help
  | '-' :: 'V' :: _ => if whole then some .version else none
  | _ =>
    if argument = "--help" then some .help
    else if whole && argument = "--version" then some .version
    else none

/-- A switch in parts: its name with the dashes, and the value after an equals sign. -/
def splitSwitch (argument : String) : String × Option String :=
  let cs := argument.toList
  let name := cs.takeWhile (· != '=')
  match cs.dropWhile (· != '=') with
  | _ :: value => (.ofList name, some (.ofList value))
  | [] => (argument, none)

/-- The value of a switch: the one attached to it, or else the next argument, which must not be a
switch; and the arguments that are left. -/
def takeValue (attached : Option String) (rest : List String) : Option (String × List String) :=
  match attached, rest with
  | some value, _ => some (value, rest)
  | none, value :: rest => if isSwitch value then none else some (value, rest)
  | none, [] => none

/-- What has been read of a command line: the arguments so far. -/
structure Draft where
  settings : Option String := none
  json : Bool := false
  bind : Option SocketAddress := none
  operands : List String := []

/-- What an argument leads to: more arguments, or the end of the reading. -/
inductive Step where
  | go (draft : Draft) (rest : List String)
  | stop (line : Line)

namespace Draft

/-- The draft with the name of a settings file, which must not be empty. -/
def putSettings (draft : Draft) (attached : Option String) (rest : List String) : Step :=
  match takeValue attached rest with
  | some (path, rest) =>
    if path = "" ∨ draft.settings.isSome then .stop .misuse
    else .go { draft with settings := some path } rest
  | none => .stop .misuse

def putBind (draft : Draft) (attached : Option String) (rest : List String) : Step :=
  match takeValue attached rest with
  | some (text, rest) =>
    match SocketAddress.ofText? text with
    | some address =>
      if draft.bind.isSome then .stop .misuse else .go { draft with bind := some address } rest
    | none => .stop .misuse
  | none => .stop .misuse

/-- The draft with the switch for JSON, which has no value. -/
def putJson (draft : Draft) (attached : Option String) (rest : List String) : Step :=
  if attached.isSome ∨ draft.json then .stop .misuse else .go { draft with json := true } rest

end Draft

/-! ## Commands -/

inductive Name where
  | eval
  | symbols
  | serve
deriving DecidableEq, Repr

namespace Name

def ofText? : String → Option Name
  | "eval" => some eval
  | "symbols" => some symbols
  | "serve" => some serve
  | _ => none

def readSwitch (command : Name) (draft : Draft) (argument : String) (rest : List String) : Step :=
  match splitSwitch argument, command with
  | ("--config", attached), _ => draft.putSettings attached rest
  | ("--json", attached), eval => draft.putJson attached rest
  | ("--bind", attached), serve => draft.putBind attached rest
  | _, _ => .stop ((information? false argument).getD .misuse)

def operandCount : Name → Nat
  | eval => 1
  | _ => 0

def finish (command : Name) (draft : Draft) : Line :=
  match command, draft.operands with
  | eval, [expression] => .run draft.settings (.eval expression draft.json)
  | symbols, [] => .run draft.settings .symbols
  | serve, [] => .run draft.settings (.serve draft.bind)
  | _, _ => .misuse

def readOperand (command : Name) (draft : Draft) (argument : String) (rest : List String) : Step :=
  if draft.operands.length < command.operandCount then
    .go { draft with operands := draft.operands ++ [argument] } rest
  else .stop .misuse

/-- Reads the arguments of the command; `free` says that all that follow are operands. -/
def read (command : Name) : (rounds : Nat) → (free : Bool) → Draft → List String → Line
  | _, _, draft, [] => command.finish draft
  | 0, _, _, _ => .misuse
  | rounds + 1, free, draft, argument :: rest =>
    if !free && argument == "--" then command.read rounds true draft rest
    else
      let step :=
        if !free && isSwitch argument then command.readSwitch draft argument rest
        else command.readOperand draft argument rest
      match step with
      | .go draft rest => command.read rounds free draft rest
      | .stop line => line

end Name

/-! ## The whole line -/

def readGlobal (draft : Draft) (argument : String) (rest : List String) : Step :=
  match splitSwitch argument with
  | ("--config", attached) => draft.putSettings attached rest
  | _ => .stop ((information? true argument).getD .misuse)

/-- A settings file that is named before the command, unless one is named after it. -/
def Line.underSettings (settings : Option String) : Line → Line
  | run own action => run (own.orElse fun _ => settings) action
  | line => line

namespace Line

/-- Asks how the program or one of its commands is used. -/
def helpOn : List String → Line
  | [] => help
  | [name] => if (Name.ofText? name).isSome || name == "help" then help else misuse
  | _ => misuse

/-- Reads the switches before the command, and the command. -/
def read : (rounds : Nat) → Draft → List String → Line
  | _, _, [] => misuse
  | 0, _, _ => misuse
  | rounds + 1, draft, argument :: rest =>
    if isSwitch argument then
      match readGlobal draft argument rest with
      | .go draft rest => read rounds draft rest
      | .stop line => line
    else
      match Name.ofText? argument with
      | some command => (command.read rest.length false {} rest).underSettings draft.settings
      | none => if argument = "help" then helpOn rest else misuse

def ofArguments (arguments : List String) : Line := read arguments.length {} arguments

end Line

end Reckoner.Command
