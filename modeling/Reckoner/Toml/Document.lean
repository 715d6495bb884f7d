import Reckoner.Toml.Strings
import Reckoner.Toml.Table

/-!
# TOML Documents

A document is a sequence of lines: a header, a key with its value, or nothing, and then perhaps a
comment.  Values between brackets or braces may go on over several lines, and between braces so may
a key with its value, at the equals sign.
-/

namespace Reckoner.Toml

abbrev Reader (α : Type) := List Char → Option (α × List Char)

/-! ## Between the values -/

/-- The text after the white space of a line. -/
def skipBlanks (cs : List Char) : List Char := cs.dropWhile isBlank

/-- The text after white space, line breaks and comments.  `inComment` says that a comment is going
on, in which control characters are forbidden. -/
def skipLines : (inComment : Bool) → List Char → Option (List Char)
  | _, [] => some []
  | _, '\n' :: rest => skipLines false rest
  | _, '\r' :: '\n' :: rest => skipLines false rest
  | false, '#' :: rest => skipLines true rest
  | false, c :: rest => if isBlank c then skipLines false rest else some (c :: rest)
  | true, c :: rest => if isForbidden c then none else skipLines true rest

def endComment : List Char → Option (List Char)
  | [] => some []
  | '\n' :: rest => some rest
  | '\r' :: '\n' :: rest => some rest
  | c :: rest => if isForbidden c then none else endComment rest

/-- The text after the end of a line, on which only a comment may be left. -/
def endLine (cs : List Char) : Option (List Char) :=
  match skipBlanks cs with
  | [] => some []
  | '\n' :: rest => some rest
  | '\r' :: '\n' :: rest => some rest
  | '#' :: rest => endComment rest
  | _ => none

/-! ## Keys -/

def isKeyChar (c : Char) : Bool := c.isAlphanum || c == '_' || c == '-'

def readKey : Reader String
  | '"' :: rest => (readBasic rest).map fun (text, rest) => (.ofList text, rest)
  | '\'' :: rest => (readLiteral rest).map fun (text, rest) => (.ofList text, rest)
  | cs =>
    let key := cs.takeWhile isKeyChar
    if key = [] then none else some (.ofList key, cs.dropWhile isKeyChar)

/-- Keys with points between them, and the white space after them: all but the last, and the
last. -/
def readKeys : (rounds : Nat) → Reader (List String × String)
  | 0, _ => none
  | rounds + 1, cs => do
    let (first, cs) ← readKey (skipBlanks cs)
    match skipBlanks cs with
    | '.' :: cs =>
      let ((path, last), cs) ← readKeys rounds cs
      some ((first :: path, last), cs)
    | cs => some (([], first), cs)

/-- The deepest nesting of values, and of the tables that one path leads through. -/
def maxNesting : Nat := 80

/-- A key with the path before it, which must not be too long. -/
def readPath : Reader (List String × String) := fun cs => do
  let ((path, key), cs) ← readKeys (cs.length + 1) cs
  if path.length < maxNesting then some ((path, key), cs) else none

/-! ## Values -/

/-- A string, after its first mark. -/
def readString (mark : Char) (cs : List Char) : Option (List Char × List Char) :=
  match cs with
  | a :: b :: rest =>
    if a = mark ∧ b = mark then
      if mark = '"' then readMultilineBasic false (skipLineBreak rest)
      else readMultilineLiteral (skipLineBreak rest)
    else if mark = '"' then readBasic cs
    else readLiteral cs
  | cs => if mark = '"' then readBasic cs else readLiteral cs

def readPlain : Reader Item := fun cs =>
  match cs with
  | '"' :: rest => (readString '"' rest).map fun (text, rest) => (.string (.ofList text), rest)
  | '\'' :: rest => (readString '\'' rest).map fun (text, rest) => (.string (.ofList text), rest)
  | cs => (readScalar cs).map fun (value, rest) => (.scalar value, rest)

def readItems (readValue : Reader Item) : (rounds : Nat) → Reader (List Item)
  | 0, _ => none
  | rounds + 1, cs => do
    match ← skipLines false cs with
    | ']' :: cs => some ([], cs)
    | cs =>
      let (first, cs) ← readValue cs
      match ← skipLines false cs with
      | ',' :: cs =>
        let (rest, cs) ← readItems readValue rounds cs
        some (first :: rest, cs)
      | ']' :: cs => some ([first], cs)
      | _ => none

/-- A key with its path, an equals sign and a value; `skip` takes away what may stand on either side
of the equals sign. -/
def readPair (skip : List Char → Option (List Char)) (readValue : Reader Item) :
    Reader (List String × String × Item) := fun cs => do
  let ((path, key), cs) ← readPath cs
  match ← skip cs with
  | '=' :: cs =>
    let (item, cs) ← readValue (← skip cs)
    some ((path, key, item), cs)
  | _ => none

/-- The entries of a table between braces, after its opening brace or a comma; `entries` are those
before. -/
def readEntries (readValue : Reader Item) : (rounds : Nat) → (entries : Entries) → Reader Entries
  | 0, _, _ => none
  | rounds + 1, entries, cs => do
    match ← skipLines false cs with
    | '\x7d' :: cs => some (entries, cs)
    | cs =>
      let ((path, key, item), cs) ← readPair (skipLines false) readValue cs
      let entries ← entries.put path key item .inline
      match ← skipLines false cs with
      | ',' :: cs => readEntries readValue rounds entries cs
      | '\x7d' :: cs => some (entries, cs)
      | _ => none

/-- A value with at most so many arrays and tables within each other. -/
def readValue : (budget : Nat) → Reader Item
  | 0, cs => readPlain cs
  | budget + 1, cs =>
    match cs with
    | '[' :: rest =>
      (readItems (readValue budget) (rest.length + 1) rest).map fun (items, rest) =>
        (.array items, rest)
    | '\x7b' :: rest =>
      (readEntries (readValue budget) (rest.length + 1) [] rest).map fun (entries, rest) =>
        (.table .inline entries, rest)
    | cs => readPlain cs

/-! ## Lines -/

/-- What has been read: all entries, and the path to the table that is open. -/
structure Draft where
  entries : Entries
  path : List String

namespace Draft

def put (draft : Draft) (path : List String) (key : String) (item : Item) : Option Draft := do
  let entries ← draft.entries.within false (Entries.put path key item) draft.path .headed
  some { draft with entries := entries }

def openTable (draft : Draft) (change : String → Entries.Change) (path : List String)
    (key : String) : Option Draft := do
  let entries ← draft.entries.within false (change key) path .headed
  some ⟨entries, path ++ [key]⟩

end Draft

def readLine (draft : Draft) (cs : List Char) : Option (Draft × List Char) :=
  match skipBlanks cs with
  | '[' :: '[' :: cs => do
    let ((path, key), cs) ← readPath cs
    match cs with
    | ']' :: ']' :: cs => some (← draft.openTable Entries.openNext path key, ← endLine cs)
    | _ => none
  | '[' :: cs => do
    let ((path, key), cs) ← readPath cs
    match cs with
    | ']' :: cs => some (← draft.openTable Entries.openNew path key, ← endLine cs)
    | _ => none
  | cs =>
    match endLine cs with
    | some rest => some (draft, rest)
    | none => do
      let ((path, key, item), cs) ← readPair (some ∘ skipBlanks) (readValue maxNesting) cs
      some (← draft.put path key item, ← endLine cs)

def readLines : (rounds : Nat) → Draft → List Char → Option Draft
  | 0, _, _ => none
  | rounds + 1, draft, cs =>
    if cs = [] then some draft
    else do
      let (draft, rest) ← readLine draft cs
      readLines rounds draft rest

/-- The text without the mark of its byte order, if it begins with one. -/
def skipByteOrderMark : List Char → List Char
  | c :: rest => if c = '\ufeff' then rest else c :: rest
  | [] => []

def Entries.ofText? (text : String) : Option Entries := do
  let cs := skipByteOrderMark text.toList
  let draft ← readLines (cs.length + 1) ⟨[], []⟩ cs
  some draft.entries

end Reckoner.Toml
