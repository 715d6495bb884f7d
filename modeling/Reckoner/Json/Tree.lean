import Reckoner.Json.Number
import Reckoner.Json.Strings

/-!
# JSON Trees

A tree is a text of JSON by its grammar alone: strings are kept as the pieces, and numbers as the
digits that are written, so that a reader can pass over what it has no use for without asking
whether it stands for anything.  The budget bounds how deeply arrays and objects are nested.
-/

namespace Reckoner.Json

/-- A JSON text by its grammar. -/
inductive Tree where
  | null
  | bool (value : Bool)
  | number (written : NumberText)
  | string (pieces : List Piece)
  | array (items : List Tree)
  | object (members : List (List Piece × Tree))

instance : Inhabited Tree := ⟨.null⟩

def isBlank (c : Char) : Bool := c == ' ' || c == '\n' || c == '\t' || c == '\r'

def skipBlanks (cs : List Char) : List Char := cs.dropWhile isBlank

/-- A way to read something off the beginning of a text: what is read, and the rest. -/
abbrev Reader (α : Type) := List Char → Option (α × List Char)

/-! ## The parts of a tree, over a way to read the trees in it -/

/-- A tree without trees in it. -/
def readScalar : Reader Tree
  | 'n' :: 'u' :: 'l' :: 'l' :: rest => some (.null, rest)
  | 't' :: 'r' :: 'u' :: 'e' :: rest => some (.bool true, rest)
  | 'f' :: 'a' :: 'l' :: 's' :: 'e' :: rest => some (.bool false, rest)
  | '"' :: rest => do
    let (pieces, rest) ← readPieces rest
    some (.string pieces, rest)
  | cs => do
    let (written, rest) ← readNumber cs
    some (.number written, rest)

def readItems (readTree : Reader Tree) : (rounds : Nat) → Reader (List Tree)
  | 0, _ => none
  | rounds + 1, cs => do
    let (first, cs) ← readTree cs
    match skipBlanks cs with
    | ',' :: cs =>
      let (rest, cs) ← readItems readTree rounds cs
      some (first :: rest, cs)
    | ']' :: cs => some ([first], cs)
    | _ => none

/-- The name of a member and the colon after it. -/
def readName (cs : List Char) : Option (List Piece × List Char) :=
  match skipBlanks cs with
  | '"' :: cs => do
    let (pieces, cs) ← readPieces cs
    match skipBlanks cs with
    | ':' :: cs => some (pieces, cs)
    | _ => none
  | _ => none

def readMembers (readTree : Reader Tree) : (rounds : Nat) → Reader (List (List Piece × Tree))
  | 0, _ => none
  | rounds + 1, cs => do
    let (name, cs) ← readName cs
    let (first, cs) ← readTree cs
    match skipBlanks cs with
    | ',' :: cs =>
      let (rest, cs) ← readMembers readTree rounds cs
      some ((name, first) :: rest, cs)
    | '\x7d' :: cs => some ([(name, first)], cs)
    | _ => none

def readArray (readTree : Reader Tree) (cs : List Char) : Option (Tree × List Char) :=
  match skipBlanks cs with
  | ']' :: cs => some (.array [], cs)
  | cs => (readItems readTree cs.length cs).map fun (items, cs) => (.array items, cs)

def readObject (readTree : Reader Tree) (cs : List Char) : Option (Tree × List Char) :=
  match skipBlanks cs with
  | '\x7d' :: cs => some (.object [], cs)
  | cs => (readMembers readTree cs.length cs).map fun (members, cs) => (.object members, cs)

/-! ## The recursion -/

/-- A tree with at most so many arrays and objects within each other, white space before it
skipped. -/
def readTree : (budget : Nat) → Reader Tree
  | 0, cs => readScalar (skipBlanks cs)
  | budget + 1, cs =>
    match skipBlanks cs with
    | '[' :: cs => readArray (readTree budget) cs
    | '\x7b' :: cs => readObject (readTree budget) cs
    | cs => readScalar cs

def Tree.ofChars? (budget : Nat) (cs : List Char) : Option Tree := do
  let (tree, rest) ← readTree budget cs
  if skipBlanks rest = [] then some tree else none

end Reckoner.Json
