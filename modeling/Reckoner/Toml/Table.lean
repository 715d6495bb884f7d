import Reckoner.Toml.Scalar

/-!
# TOML Tables

A document builds one table, by headers that open tables within it and by keys that put values into
the table that is open.  Which of these may meet an existing table again depends on how that table
came to be, so each remembers its origin.
-/

namespace Reckoner.Toml

/-- How a table came to be. -/
inductive Origin where
  /-- A header named a table within it. -/
  | passed
  /-- A header named it; the document itself counts as named. -/
  | headed
  /-- A dotted key named a value within it. -/
  | dotted
  /-- It was written between braces. -/
  | inline
deriving DecidableEq, Repr

/-- What a key stands for. -/
inductive Item where
  | string (text : String)
  | scalar (value : Scalar)
  /-- Items between brackets. -/
  | array (items : List Item)
  /-- Tables that were opened one by one under the same header, the latest and those before it. -/
  | tables (latest : List (String × Item)) (earlier : List (List (String × Item)))
  | table (origin : Origin) (entries : List (String × Item))

instance : Inhabited Item := ⟨.array []⟩

/-- Keys and what they stand for, no key twice. -/
abbrev Entries := List (String × Item)

namespace Entries

def has (entries : Entries) (key : String) : Bool := (entries.lookup key).isSome

/-- The entries with a new item for a key that they have. -/
def replace (entries : Entries) (key : String) (item : Item) : Entries :=
  entries.map fun entry => if entry.1 == key then (key, item) else entry

/-- A change of the entries of a table. -/
abbrev Change := Origin → Entries → Option Entries

/-- Makes a change in the table that a path leads to.  Tables on the way that do not exist are
made.  A path of a dotted key (`dotted`) may not lead through a table that a header named, and no
path leads through a table between braces; of the tables under one header it takes the last. -/
def within (dotted : Bool) (change : Change) : (path : List String) → Change
  | [], origin, entries => change origin entries
  | key :: path, _, entries =>
    match entries.lookup key with
    | none => do
      let origin := if dotted then .dotted else .passed
      let inner ← within dotted change path origin []
      some (entries ++ [(key, .table origin inner)])
    | some (.table origin inner) =>
      if origin = .inline ∨ dotted ∧ origin = .headed then none
      else do
        let inner ← within dotted change path origin inner
        some (replace entries key (.table origin inner))
    | some (.tables latest earlier) => do
      let latest ← within dotted change path .headed latest
      some (replace entries key (.tables latest earlier))
    | some _ => none

/-- Puts an item under a new key.  A table takes either dotted keys or others, not both. -/
def insertNew (dotted : Bool) (key : String) (item : Item) : Change := fun origin entries =>
  if decide (origin = .dotted) != dotted then none
  else if has entries key then none
  else some (entries ++ [(key, item)])

def put (path : List String) (key : String) (item : Item) : Change :=
  within true (insertNew (!path.isEmpty) key item) path

/-- Opens the table of a header, which must be new or only have been passed. -/
def openNew (key : String) : Change := fun _ entries =>
  match entries.lookup key with
  | none => some (entries ++ [(key, .table .headed [])])
  | some (.table .passed inner) => some (replace entries key (.table .headed inner))
  | some _ => none

/-- Opens one more table under the header of several. -/
def openNext (key : String) : Change := fun _ entries =>
  match entries.lookup key with
  | none => some (entries ++ [(key, .tables [] [])])
  | some (.tables latest earlier) => some (replace entries key (.tables [] (latest :: earlier)))
  | some _ => none

end Entries

end Reckoner.Toml
