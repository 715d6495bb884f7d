import Reckoner.Fault
import Reckoner.Text.Blank
import Reckoner.Token.Number

/-!
# From Text to Tokens

Between white space, the text is cut into the longest lexemes there are, from left to right.  The
list of tokens ends with a sentinel at the end of the text.  The first character at which no lexeme
starts is a fault.
-/

namespace Reckoner

namespace Lexeme

def ofMark? : Char → Option Lexeme
  | '+' => some .plus
  | '-' => some .minus
  | '*' => some .star
  | '/' => some .slash
  | '^' => some .caret
  | '(' => some .opening
  | ')' => some .closing
  | ',' => some .comma
  | _ => none

/-- Names begin with an ASCII letter or an underscore. -/
def startsName (c : Char) : Bool := c.isAlpha || c == '_'

def continuesName (c : Char) : Bool := c.isAlphanum || c == '_'

/-- The longest lexeme at the beginning of a text, and its length less one: the characters of
`rest` that belong to it. -/
def read? (first : Char) (rest : List Char) : Option (Lexeme × Nat) :=
  match ofMark? first with
  | some mark => some (mark, 0)
  | none =>
    if startsName first then
      let more := rest.takeWhile continuesName
      some (.name (.ofList (first :: more)), more.length)
    else if NumberText.starts (first :: rest) then
      let number := NumberText.read (first :: rest)
      some (.number number.value, number.chars.length - 1)
    else none

end Lexeme

namespace Token

/-- The tokens of the text that begins at `position`. -/
def ofCharsFrom (position : Nat) : List Char → Except BadCharacter (List Token)
  | [] => .ok [⟨.finish, position⟩]
  | first :: rest =>
    if Text.isBlank first then ofCharsFrom (position + 1) rest
    else
      match Lexeme.read? first rest with
      | none => .error ⟨position, first⟩
      | some (lexeme, more) => do
        let tokens ← ofCharsFrom (position + 1 + more) (rest.drop more)
        .ok (⟨lexeme, position⟩ :: tokens)
termination_by cs => cs.length
decreasing_by all_goals simp only [List.length_cons, List.length_drop]; omega

/-- The tokens of a text, the sentinel included. -/
def ofText (text : String) : Except BadCharacter (List Token) := ofCharsFrom 0 text.toList

end Token

end Reckoner
