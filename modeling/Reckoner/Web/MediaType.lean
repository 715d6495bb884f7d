/-!
# Media Types

A media type is a type and a subtype with a slash between them, then parameters, each after a
semicolon.  Whatever follows the last plus sign of the subtype, unless it begins with it, is a
suffix that names the format the subtype is written in.
-/

namespace Reckoner.Web

/-- A media type, its parameters aside. -/
structure MediaType where
  type : List Char
  /-- The subtype without its suffix. -/
  subtype : List Char
  suffix : Option (List Char)
deriving DecidableEq, Repr

namespace MediaType

def isTokenChar (c : Char) : Bool :=
  c.isAlphanum || "!#$%&'*+-.^_`|~".toList.contains c

def isQuotedChar (c : Char) : Bool := decide (31 < c.toNat) && decide (c.toNat < 127)

/-! ## Parameters -/

/-- The text after a value in quotation marks, the opening one passed.  Its first character may be
anything, a quotation mark too. -/
def afterQuoted? : List Char → Option (List Char)
  | [] => none
  | first :: rest =>
    if isQuotedChar first then
      match rest.dropWhile fun c => isQuotedChar c && c != '"' with
      | '"' :: rest => some (rest.dropWhile (· == ' '))
      | _ => none
    else none

/-- The text after a value, which is empty or begins with a semicolon. -/
def afterValue? : List Char → Option (List Char)
  | '"' :: rest => afterQuoted? rest
  | cs =>
    let rest := cs.dropWhile isTokenChar
    if rest.length = cs.length ∧ cs ≠ [] then none else some rest

def afterParameter? (cs : List Char) : Option (List Char) :=
  let rest := cs.dropWhile isTokenChar
  match rest with
  | '=' :: value => if rest.length = cs.length then none else afterValue? value
  | _ => none

/-- Parameters with semicolons before them, and nothing else.  Spaces may stand after a semicolon,
and nothing need. -/
def areParameters : (rounds : Nat) → List Char → Bool
  | _, [] => true
  | 0, _ => false
  | rounds + 1, c :: rest =>
    if c = ';' then
      match rest.dropWhile (· == ' ') with
      | [] => true
      | rest => (afterParameter? rest).any (areParameters rounds)
    else false

/-! ## The type -/

/-- A subtype and its suffix, where a plus sign parts them. -/
def splitSuffix (name : List Char) : List Char × Option (List Char) :=
  let suffix := (name.reverse.takeWhile (· != '+')).reverse
  let subtype := name.take (name.length - suffix.length - 1)
  if suffix.length = name.length ∨ subtype = [] then (name, none) else (subtype, some suffix)

def ofText? (text : String) : Option MediaType :=
  let cs := text.toList
  let type := cs.takeWhile isTokenChar
  match cs.dropWhile isTokenChar with
  | '/' :: rest =>
    let name := rest.takeWhile isTokenChar
    let parameters := rest.dropWhile isTokenChar
    let (subtype, suffix) := splitSuffix name
    if type = [] ∨ (name = [] ∧ parameters ≠ []) then none
    else if areParameters parameters.length parameters then some ⟨type, subtype, suffix⟩
    else none
  | _ => none

/-- The same name, whatever the case of its letters. -/
def sameName (name : List Char) (lower : String) : Bool := name.map Char.toLower == lower.toList

/-- JSON, or a format that is written in it. -/
def isJson (m : MediaType) : Bool :=
  sameName m.type "application" &&
    (sameName m.subtype "json" || m.suffix.any fun suffix => sameName suffix "json")

end MediaType

end Reckoner.Web
