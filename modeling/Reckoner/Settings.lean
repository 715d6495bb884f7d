import Reckoner.Calculation
import Reckoner.Network.SocketAddress
import Reckoner.Toml.Document

/-!
# Settings

The settings of the program, read from a TOML document.  Each part of it, and each setting in it,
may be missing and then has its default; what is not known is passed over.  A part may also be
written as an array of its settings in order, and a date or a time in its place is a part without
any known setting.  Limits of zero are refused.
-/

namespace Reckoner

/-- The settings. -/
structure Settings where
  /-- The address that the service listens on. -/
  bind : SocketAddress := .v4 ⟨127, 0, 0, 1⟩ 5000
  limits : Limits := {}
deriving DecidableEq, Repr

inductive SettingsFault where
  /-- It is no document, or a setting has no such value. -/
  | malformed
  /-- No characters would be accepted. -/
  | noInput
  /-- No depth would be accepted. -/
  | noDepth
deriving DecidableEq, Repr

def SettingsFault.message : SettingsFault → String
  | malformed => "malformed settings"
  | noInput => "limits.max_input_len must be at least 1"
  | noDepth => "limits.max_depth must be at least 1"

namespace Settings

open Toml (Item Entries)

/-! ## What is passed over -/

mutual

/-- No number in the item is too large to be passed over. -/
def passable : Item → Bool
  | .string _ => true
  | .scalar value => value != .tooLarge
  | .array items => passableAll items
  | .tables latest earlier => passableEntries latest && passableTables earlier
  | .table _ entries => passableEntries entries

def passableAll : List Item → Bool
  | [] => true
  | first :: rest => passable first && passableAll rest

def passableEntries : List (String × Item) → Bool
  | [] => true
  | (_, first) :: rest => passable first && passableEntries rest

def passableTables : List (List (String × Item)) → Bool
  | [] => true
  | first :: rest => passableEntries first && passableTables rest

end

/-- The entries that are not known may be passed over. -/
def othersPassable (known : List String) (entries : Entries) : Bool :=
  passableEntries (entries.filter fun entry => !known.contains entry.1)

/-! ## Single settings -/

/-- The greatest limit that can be set: the greatest number of 64 bits. -/
def greatestLimit : Int := twoPow 64 - 1

def readLimit : Item → Option Nat
  | .scalar (.integer value) =>
    if 0 ≤ value ∧ value ≤ greatestLimit then some value.toNat else none
  | _ => none

def readAddress : Item → Option SocketAddress
  | .string text => SocketAddress.ofText? text
  | _ => none

/-- A setting that may be missing. -/
def readOr {α : Type} (read : Item → Option α) (fallback : α) : Option Item → Option α
  | none => some fallback
  | some item => read item

/-! ## Parts -/

/-- The named settings of a part, in order: by name if it is a table, by place if it is an array,
and none of them if it is a date or a time. -/
def fields? (names : List String) : Item → Option (List (Option Item))
  | .table _ entries =>
    if othersPassable names entries then some (names.map fun name => entries.lookup name)
    else none
  | .array items => some ((List.range names.length).map fun place => items[place]?)
  | .scalar .dateTime => some (names.map fun _ => none)
  | .tables latest earlier =>
    let items := (latest :: earlier).reverse.map (Item.table .headed)
    some ((List.range names.length).map fun place => items[place]?)
  | _ => none

def readServer (fallback : SocketAddress) (item : Item) : Option SocketAddress := do
  match ← fields? ["bind"] item with
  | [bind] => readOr readAddress fallback bind
  | _ => none

def readLimits (fallback : Limits) (item : Item) : Option Limits := do
  match ← fields? ["max_input_len", "max_depth"] item with
  | [length, depth] =>
    some ⟨← readOr readLimit fallback.maxInputLength length,
      ← readOr readLimit fallback.maxDepth depth⟩
  | _ => none

def ofEntries? (entries : Entries) : Option Settings := do
  let standard : Settings := {}
  if othersPassable ["server", "limits"] entries then
    let bind ← readOr (readServer standard.bind) standard.bind (entries.lookup "server")
    let limits ← readOr (readLimits standard.limits) standard.limits (entries.lookup "limits")
    some ⟨bind, limits⟩
  else none

/-! ## Whole texts -/

/-- The settings, unless a limit is zero. -/
def checked (settings : Settings) : Except SettingsFault Settings :=
  if settings.limits.maxInputLength = 0 then .error .noInput
  else if settings.limits.maxDepth = 0 then .error .noDepth
  else .ok settings

def ofText (text : String) : Except SettingsFault Settings :=
  match Entries.ofText? text >>= ofEntries? with
  | none => .error .malformed
  | some settings => checked settings

/-! ## Files -/

inductive FileFault where
  /-- There is no such file. -/
  | unreadable (path : String)
  /-- The file does not hold settings. -/
  | invalid (path : String) (fault : SettingsFault)
deriving DecidableEq, Repr

/-- What was to be done when the fault was met. -/
def FileFault.context : FileFault → String
  | unreadable path => "Failed to read config file " ++ path
  | invalid path _ => "Invalid config file " ++ path

/-- The files that there are: the text at each path. -/
abbrev Files := String → Option String

def ofFile (files : Files) (path : String) : Except FileFault Settings :=
  match files path with
  | none => .error (.unreadable path)
  | some text => (ofText text).mapError (.invalid path)

/-- The settings of the file that was asked for, or else of the usual one if it is there. -/
def load (files : Files) (usual : String) : (asked : Option String) → Except FileFault Settings
  | some path => ofFile files path
  | none => if (files usual).isSome then ofFile files usual else .ok {}

end Settings

end Reckoner
