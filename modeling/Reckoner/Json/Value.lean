import Reckoner.Json.Tree

/-!
# JSON Values

What a tree stands for: strings with their characters, and numbers with their values.  A tree that
holds a lone surrogate or a number beyond the doubles, anywhere, stands for nothing.
-/

namespace Reckoner.Json

/-- A JSON value. -/
inductive Value where
  | null
  | bool (value : Bool)
  | number (value : Number)
  | string (value : String)
  | array (items : List Value)
  /-- The members in order; a later member of the same name replaces an earlier one. -/
  | object (members : List (String × Value))

instance : Inhabited Value := ⟨.null⟩

def text? (pieces : List Piece) : Option String := (decode pieces).map String.ofList

namespace Value

mutual

def ofTree? : Tree → Option Value
  | .null => some .null
  | .bool value => some (.bool value)
  | .number written => written.value?.map .number
  | .string pieces => (text? pieces).map .string
  | .array items => (ofTrees? items).map .array
  | .object members => (ofMembers? members).map .object

def ofTrees? : List Tree → Option (List Value)
  | [] => some []
  | first :: rest => do
    let value ← ofTree? first
    let values ← ofTrees? rest
    some (value :: values)

def ofMembers? : List (List Piece × Tree) → Option (List (String × Value))
  | [] => some []
  | (name, first) :: rest => do
    let name ← text? name
    let value ← ofTree? first
    let members ← ofMembers? rest
    some ((name, value) :: members)

end

/-- The member of an object with that name: the last one of them. -/
def member? (name : String) : Value → Option Value
  | object members => members.reverse.lookup name
  | _ => none

end Value

end Reckoner.Json
