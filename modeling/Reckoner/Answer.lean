import Reckoner.Calculation
import Reckoner.Json.Tree
import Reckoner.Json.Value

/-!
# Answers

What is sent back for a calculation: whether it went well, and the result or the message, as a JSON
object.  Reading an answer takes its members in any order, or their values as an array; other
members are passed over, whatever they hold, and a null is the same as nothing.
-/

namespace Reckoner

/-- An answer. -/
structure Answer where
  ok : Bool
  result : Option String := none
  error : Option String := none
deriving DecidableEq, Repr

namespace Answer

def success (result : String) : Answer := { ok := true, result := some result }

def failure (error : String) : Answer := { ok := false, error := some error }

/-! ## Writing -/

/-- A member whose value may be missing, with a comma before it. -/
def memberText (name : String) : Option String → List Char
  | none => []
  | some value => ',' :: Json.quoted name ++ ':' :: Json.quoted value

def toChars (answer : Answer) : List Char :=
  '\x7b' :: Json.quoted "ok" ++ ':' :: (if answer.ok then "true" else "false").toList ++
    memberText "result" answer.result ++ memberText "error" answer.error ++ ['\x7d']

def toText (answer : Answer) : String := .ofList answer.toChars

/-! ## Reading -/

/-- A string or a null. -/
def readOptional : Json.Tree → Option (Option String)
  | .null => some none
  | .string pieces => (Json.text? pieces).map some
  | _ => none

def readBool : Json.Tree → Option Bool
  | .bool value => some value
  | _ => none

structure Draft where
  ok : Option Bool := none
  result : Option (Option String) := none
  error : Option (Option String) := none

namespace Draft

/-- The draft with one more member, unless it has that member already. -/
def put (draft : Draft) (name : String) (tree : Json.Tree) : Option Draft :=
  match name with
  | "ok" => do
    let value ← readBool tree
    if draft.ok.isNone then some { draft with ok := some value } else none
  | "result" => do
    let value ← readOptional tree
    if draft.result.isNone then some { draft with result := some value } else none
  | "error" => do
    let value ← readOptional tree
    if draft.error.isNone then some { draft with error := some value } else none
  | _ => some draft

/-- The draft with the members of an object. -/
def putAll (draft : Draft) : List (List Json.Piece × Json.Tree) → Option Draft
  | [] => some draft
  | (pieces, tree) :: rest => do
    let name ← Json.text? pieces
    let draft ← draft.put name tree
    putAll draft rest

/-- The answer, if the draft says how it went. -/
def finish? (draft : Draft) : Option Answer :=
  draft.ok.map fun ok => ⟨ok, draft.result.getD none, draft.error.getD none⟩

end Draft

def ofTree? : Json.Tree → Option Answer
  | .object members => do
    let draft ← Draft.putAll {} members
    draft.finish?
  | .array [ok] => do some ⟨← readBool ok, none, none⟩
  | .array [ok, result] => do some ⟨← readBool ok, ← readOptional result, none⟩
  | .array [ok, result, error] => do
    some ⟨← readBool ok, ← readOptional result, ← readOptional error⟩
  | _ => none

/-- The answer that a text stands for, however deeply nested what it passes over. -/
def ofText? (text : String) : Option Answer := do
  let cs := text.toList
  let tree ← Json.Tree.ofChars? cs.length cs
  ofTree? tree

end Answer

def Calculation.answer (c : Calculation) : Answer :=
  match c.outcome with
  | .ok result => .success result.text
  | .error fault => .failure fault.message

end Reckoner
