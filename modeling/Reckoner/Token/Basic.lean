import Reckoner.Numeral.Layout

/-!
# Tokens

The words of an expression: numbers, names, the marks of the five operators, brackets, the comma,
and a sentinel for the end of the text.  A token is such a lexeme with the offset, in characters,
at which it begins.
-/

namespace Reckoner

/-- A word of an expression. -/
inductive Lexeme where
  | number (value : Binary64)
  | name (text : String)
  | plus
  | minus
  | star
  | slash
  | caret
  | opening
  | closing
  | comma
  /-- The end of the text. -/
  | finish
deriving DecidableEq

def Lexeme.text : Lexeme → String
  | .number value => "number " ++ value.text
  | .name text => "name '" ++ text ++ "'"
  | .plus => "'+'"
  | .minus => "'-'"
  | .star => "'*'"
  | .slash => "'/'"
  | .caret => "'^'"
  | .opening => "'('"
  | .closing => "')'"
  | .comma => "','"
  | .finish => "end of input"

/-- A lexeme and where it begins. -/
structure Token where
  lexeme : Lexeme
  /-- The offset in characters. -/
  position : Nat
deriving DecidableEq

end Reckoner
