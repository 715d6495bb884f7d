import Reckoner.Token.Basic
import Reckoner.Vocabulary.Arity

/-!
# Faults

Everything that can be wrong with an expression, by cause.  `message` words each cause, and
`Fault.kind` says how a front end has to treat it.
-/

namespace Reckoner

/-! ## Faults of the text -/

/-- A character with which no lexeme starts. -/
structure BadCharacter where
  position : Nat
  character : Char
deriving DecidableEq

def BadCharacter.message (fault : BadCharacter) : String :=
  "unexpected character '" ++ fault.character.toString ++ "' at position " ++
    toString fault.position

/-- What the grammar asks for at some place. -/
inductive Wanted where
  /-- The beginning of an operand. -/
  | operand
  /-- The end of a bracket, or an operator before it. -/
  | groupEnd
  /-- The end of an argument. -/
  | argumentEnd
  /-- The end of the expression. -/
  | expressionEnd
deriving DecidableEq, Repr

def Wanted.text : Wanted → String
  | operand => "a number, name or '('"
  | groupEnd => "')'"
  | argumentEnd => "',' or ')'"
  | expressionEnd => "an operator or end of input"

/-- A token at which no expression can go on. -/
structure Unexpected where
  position : Nat
  wanted : Wanted
  found : Lexeme
deriving DecidableEq

def Unexpected.message (fault : Unexpected) : String :=
  "expected " ++ fault.wanted.text ++ " at position " ++ toString fault.position ++ ", found " ++
    fault.found.text

/-! ## Faults of evaluation -/

/-- The operations that are not defined for all numbers. -/
inductive DomainFault where
  /-- The square root of a negative number. -/
  | squareRoot
  /-- The logarithm of a number that is not positive. -/
  | logarithm
  /-- A fractional power of a negative number. -/
  | fractionalPower
deriving DecidableEq, Repr

namespace DomainFault

def functionName : DomainFault → String
  | squareRoot => "sqrt"
  | logarithm => "log"
  | fractionalPower => "pow"

def reason : DomainFault → String
  | fractionalPower => "negative number cannot be raised to a fractional power"
  | _ => "math domain error"

end DomainFault

inductive EvalFault where
  /-- The vocabulary has no such name in this role. -/
  | unknownName (name : String)
  /-- A function with a number of arguments that it does not take. -/
  | arityMismatch (name : String) (expected : Arity) (given : Nat)
  | divisionByZero
  /-- An operation outside its domain. -/
  | outsideDomain (fault : DomainFault)
  /-- An infinity, or not a number. -/
  | nonFinite
  /-- A function looked for an argument that it was not given, although its arity accepts the
  number of arguments.  No function of the standard vocabulary does. -/
  | missingArgument
deriving DecidableEq

def EvalFault.message : EvalFault → String
  | unknownName name => "Function or constant '" ++ name ++ "' not allowed"
  | arityMismatch name expected given =>
    name ++ "() takes " ++ expected.text ++ " argument(s), " ++ toString given ++ " given"
  | divisionByZero => "Division by zero"
  | outsideDomain fault => fault.functionName ++ ": " ++ fault.reason
  | nonFinite => "Result is not a finite number"
  | missingArgument => "Internal server error"

/-! ## All faults -/

/-- A fault on the way from a text to its result. -/
inductive Fault where
  | character (fault : BadCharacter)
  | grammar (fault : Unexpected)
  | evaluation (fault : EvalFault)
  /-- More characters than the limit. -/
  | tooLong (length limit : Nat)
  /-- Nested more deeply than the limit. -/
  | tooDeep (limit : Nat)
deriving DecidableEq

/-- How a fault is to be reported. -/
inductive FaultKind where
  /-- The request is at fault. -/
  | badRequest
  /-- The request names something outside the vocabulary. -/
  | forbidden
  /-- The program is at fault. -/
  | internal
deriving DecidableEq, Repr

namespace Fault

def message : Fault → String
  | character fault => fault.message
  | grammar fault => fault.message
  | evaluation fault => fault.message
  | tooLong length limit =>
    "Expression too long (" ++ toString length ++ " characters, limit is " ++ toString limit ++ ")"
  | tooDeep limit => "Expression nested too deeply (limit is " ++ toString limit ++ ")"

def kind : Fault → FaultKind
  | evaluation (.unknownName _) => .forbidden
  | evaluation .missingArgument => .internal
  | _ => .badRequest

end Fault

end Reckoner
